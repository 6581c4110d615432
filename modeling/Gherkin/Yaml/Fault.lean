/-!
# Faults of YAML texts

A text that breaks the rules of the language is malformed, whatever the rule. A text that follows
them can still hold a scalar that does not stand for what its tag says, and each way to miss it is
a fault of its own. Only the first fault counts.
-/

namespace Gherkin.Yaml

/-- Why a text gives no value. -/
inductive Fault where
  /-- The text breaks a rule of the language, or something in it has no meaning. -/
  | malformed
  /-- An escape gives a code beyond the last character. -/
  | noCharacter
  /-- An escape gives a code that does not fit into thirty-one bits. -/
  | hugeCode
  /-- A text under an integer's tag spells none, or an integer has too many digits. -/
  | notInteger
  /-- A text under a floating-point number's tag spells none. -/
  | notFloat
  /-- There is no digit under a number's tag. -/
  | emptyNumber
  /-- A floating-point number to base sixty has so many parts that the first is out of range. -/
  | hugeFactor
  /-- A text under a truth value's tag is no word for one. -/
  | notTruth
  /-- A text under a timestamp's tag does not have the form of one. -/
  | notTimestamp
  /-- A timestamp is not written as a scalar. -/
  | builtTimestamp
  /-- The calendar or the clock does not have the date or time. -/
  | noSuchTime
  /-- A mapping's own value leads back to the mapping, or to no text after very many steps. -/
  | endless
  /-- Collections are nested too deeply, or merged into each other too often. -/
  | tooDeep
  deriving DecidableEq, Repr

/-- A missing result means that the text is malformed. -/
def Fault.orMalformed {α : Type} : Option α → Except Fault α
  | none => .error .malformed
  | some a => .ok a

end Gherkin.Yaml
