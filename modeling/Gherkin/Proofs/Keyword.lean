import Mathlib.Data.List.Forall2
import Mathlib.Data.List.Nodup
import Gherkin.Keyword
import Gherkin.Proofs.Text.Trim

/-!
# Recognising keyword lines

A line is compared with the spellings in lowercase, and what stands behind the keyword is cut from
the line itself. Lowercasing may change the length of a line, since the dotted capital I becomes two
characters, but not within a keyword: every spelling comes from as many characters of the line. The
order of the list makes the first spelling found the longest one.

A capital sigma has two lowercase forms, by its place in the word. No spelling holds either, so the
statements are about every way to lower a line.
-/

namespace Gherkin

/-! ## Lowercase -/

/-- The second text is the first one in lowercase. Characters are lowered one by one, and a capital
sigma takes either of its forms. -/
inductive Lowers : Text → Text → Prop where
  | nil : Lowers [] []
  | char (c : Char) {t low : Text} (below : Lowers t low) : Lowers (c :: t) (lowerChar c ++ low)
  | finalSigma {t low : Text} (below : Lowers t low) :
      Lowers (Char.ofNat 0x3A3 :: t) (Char.ofNat 0x3C2 :: low)

/-- The text in lowercase is one of its lowercases. -/
theorem lowers_lowercase (t : Text) : Lowers t (Text.lowercase t) := by
  induction t with
  | nil => exact .nil
  | cons c rest ih => exact .char c ih

/-- Lowercases of two texts make up a lowercase of both together. -/
theorem Lowers.append {s t low more : Text} (hs : Lowers s low) (ht : Lowers t more) :
    Lowers (s ++ t) (low ++ more) := by
  induction hs with
  | nil => exact ht
  | char c below ih =>
    rw [List.cons_append, List.append_assoc]
    exact .char c ih
  | finalSigma below ih => exact .finalSigma ih

/-- The characters are lowered one for one. -/
def Spells (front spelling : Text) : Prop :=
  List.Forall₂ (fun c d => lowerChar c = [d]) front spelling

/-- A character has one lowercase character, unless it is the dotted capital I. -/
theorem lowerChar_cases (c : Char) :
    (∃ d, lowerChar c = [d]) ∨ lowerChar c = ['i', Char.ofNat 0x307] := by
  simp only [lowerChar]
  split
  · split
    · exact .inl ⟨_, rfl⟩
    · exact .inl ⟨_, rfl⟩
  · split
    · exact .inr rfl
    · split
      · exact .inl ⟨_, rfl⟩
      · exact .inl ⟨_, rfl⟩

/-- The text can only come from as many characters: it holds neither a dot above nor a small sigma,
and does not end in an i, to which a dot might belong. -/
structure Plain (spelling : Text) : Prop where
  noDot : Char.ofNat 0x307 ∉ spelling
  noSigma : Char.ofNat 0x3C3 ∉ spelling
  noFinalSigma : Char.ofNat 0x3C2 ∉ spelling
  last : spelling.getLast? ≠ some 'i'

private theorem Plain.tail {d : Char} {spelling : Text} (h : Plain (d :: spelling)) :
    Plain spelling where
  noDot := fun hmem => h.noDot (List.mem_cons_of_mem d hmem)
  noSigma := fun hmem => h.noSigma (List.mem_cons_of_mem d hmem)
  noFinalSigma := fun hmem => h.noFinalSigma (List.mem_cons_of_mem d hmem)
  last := by
    cases spelling with
    | nil => simp
    | cons e more => exact fun hlast => h.last (by rw [List.getLast?_cons_cons, hlast])

/-- The first character of a line in lowercase comes from the first character of the line, which
lowers to nothing else unless it is the dotted capital I or a capital sigma. -/
theorem Lowers.exists_first {line low : Text} {d : Char} (h : Lowers line (d :: low)) :
    ∃ c below, line = c :: below ∧
      (lowerChar c = [d] ∧ Lowers below low ∨
        d = 'i' ∧ low.head? = some (Char.ofNat 0x307) ∨ d = Char.ofNat 0x3C2) := by
  generalize hlow : d :: low = lowered at h
  cases h with
  | nil => simp at hlow
  | @char c t lowered below =>
    refine ⟨c, t, rfl, ?_⟩
    rcases lowerChar_cases c with ⟨e, he⟩ | hdotted
    · rw [he, List.singleton_append] at hlow
      obtain ⟨rfl, rfl⟩ := List.cons.inj hlow
      exact .inl ⟨he, below⟩
    · rw [hdotted] at hlow
      obtain ⟨rfl, rfl⟩ := List.cons.inj hlow
      exact .inr (.inl ⟨rfl, rfl⟩)
  | @finalSigma t lowered below =>
    obtain ⟨rfl, -⟩ := List.cons.inj hlow
    exact ⟨_, t, rfl, .inr (.inr rfl)⟩

/-- A plain text at the beginning of the lowercase line stands there in the line itself, in whatever
case, and the rest of the line lowers to what follows it. -/
theorem Lowers.exists_front {line spelling rest : Text} (h : Lowers line (spelling ++ rest))
    (hplain : Plain spelling) :
    ∃ front below, line = front ++ below ∧ Spells front spelling ∧ Lowers below rest := by
  induction spelling generalizing line with
  | nil => exact ⟨[], line, rfl, .nil, h⟩
  | cons d more ih =>
    obtain ⟨c, below, rfl, hone | ⟨rfl, hdot⟩ | rfl⟩ := h.exists_first
    · obtain ⟨front, after, rfl, hfront, hafter⟩ := ih hone.2 hplain.tail
      exact ⟨c :: front, after, rfl, .cons hone.1 hfront, hafter⟩
    · cases more with
      | nil => exact absurd rfl hplain.last
      | cons e more =>
        obtain rfl : e = Char.ofNat 0x307 := Option.some.inj hdot
        exact absurd (by simp) hplain.noDot
    · exact absurd List.mem_cons_self hplain.noFinalSigma

/-- What a line begins with in some case, every lowercase of the line begins with. -/
theorem Lowers.isPrefix_of_spells {front below low spelling : Text}
    (h : Lowers (front ++ below) low) (hfront : Spells front spelling)
    (hplain : Plain spelling) : spelling <+: low := by
  induction hfront generalizing low with
  | nil => exact List.nil_prefix
  | @cons c d front spelling hchar hmore ih =>
    generalize hline : c :: front ++ below = line at h
    cases h with
    | nil => simp at hline
    | @char c' t low hbelow =>
      obtain ⟨rfl, rfl⟩ := List.cons.inj hline
      rw [hchar]
      exact List.cons_prefix_cons.mpr ⟨rfl, ih hbelow hplain.tail⟩
    | @finalSigma t low hbelow =>
      obtain ⟨rfl, -⟩ := List.cons.inj hline
      have hsigma : lowerChar (Char.ofNat 0x3A3) = [Char.ofNat 0x3C3] := by decide +kernel
      rw [hsigma] at hchar
      obtain rfl : Char.ofNat 0x3C3 = d := List.singleton_inj.mp hchar
      exact absurd List.mem_cons_self hplain.noSigma

/-- Whether a line begins with a plain text does not depend on the form its sigmas take. -/
theorem Lowers.isPrefix_iff {line low spelling : Text} (h : Lowers line low)
    (hplain : Plain spelling) : spelling <+: low ↔ spelling <+: Text.lowercase line := by
  have hother {low other : Text} (hlow : Lowers line low) (hoth : Lowers line other)
      (hbegins : spelling <+: low) : spelling <+: other := by
    obtain ⟨rest, rfl⟩ := hbegins
    obtain ⟨front, below, rfl, hfront, -⟩ := hlow.exists_front hplain
    exact hoth.isPrefix_of_spells hfront hplain
  have hcanonical := lowers_lowercase line
  exact ⟨hother h hcanonical, hother hcanonical h⟩

/-! ## The longest spelling -/

namespace Keyword

/-- The spelling is on the list, the lowercase line begins with it, and with no longer one. -/
structure Longest (low : Text) (entry : Keyword × String) : Prop where
  listed : entry ∈ spellings
  begins : entry.2.toList <+: low
  longest : ∀ other ∈ spellings, other.2.toList <+: low → other.2.length ≤ entry.2.length

/-- The spellings of keywords are plain. -/
theorem plain_spelling {entry : Keyword × String} (h : entry ∈ spellings) :
    Plain entry.2.toList := by
  have hall : ∀ entry ∈ spellings, Char.ofNat 0x307 ∉ entry.2.toList ∧
      Char.ofNat 0x3C3 ∉ entry.2.toList ∧ Char.ofNat 0x3C2 ∉ entry.2.toList ∧
      entry.2.toList.getLast? ≠ some 'i' := by decide
  obtain ⟨hdot, hsigma, hfinal, hlast⟩ := hall entry h
  exact ⟨hdot, hsigma, hfinal, hlast⟩

/-- No spelling is the beginning of one further down the list. -/
theorem pairwise_spellings :
    spellings.Pairwise fun entry later => ¬ entry.2.toList <+: later.2.toList := by decide

/-- No spelling belongs to two keywords. -/
theorem eq_of_spelling_eq {entry other : Keyword × String} (hentry : entry ∈ spellings)
    (hother : other ∈ spellings) (h : entry.2 = other.2) : entry = other := by
  have hdistinct : (spellings.map Prod.snd).Nodup := by decide
  exact List.inj_on_of_nodup_map hdistinct hentry hother h

/-- No spelling is found exactly if none begins the line in lowercase. -/
theorem matchSpelling_eq_none_iff {line : Text} :
    matchSpelling line = none ↔
      ∀ entry ∈ spellings, ¬ entry.2.toList <+: Text.lowercase line := by
  simp [matchSpelling, List.find?_eq_none]

/-- The spelling found is the longest one that the lowercase line begins with. -/
theorem longest_of_matchSpelling {line : Text} {entry : Keyword × String}
    (h : matchSpelling line = some entry) : Longest (Text.lowercase line) entry := by
  obtain ⟨hbegins, front, later, hlist, hfront⟩ := List.find?_eq_some_iff_append.mp h
  rw [List.isPrefixOf_iff_prefix] at hbegins
  have hlisted : entry ∈ spellings := by
    rw [hlist]
    simp
  refine ⟨hlisted, hbegins, fun other hother hprefix => ?_⟩
  by_contra hlonger
  have hlength : entry.2.toList.length ≤ other.2.toList.length := by
    rw [String.length_toList, String.length_toList]
    omega
  have hextends : entry.2.toList <+: other.2.toList :=
    List.prefix_of_prefix_length_le hbegins hprefix hlength
  rw [hlist, List.mem_append, List.mem_cons] at hother
  rcases hother with hbefore | rfl | hafter
  · have hnot := hfront other hbefore
    rw [Bool.not_eq_true', ← Bool.not_eq_true, List.isPrefixOf_iff_prefix] at hnot
    exact hnot hprefix
  · exact hlonger (Nat.le_refl _)
  · have hpairs := pairwise_spellings
    rw [hlist, List.pairwise_append, List.pairwise_cons] at hpairs
    exact hpairs.2.1.1 other hafter hextends

/-- No two spellings are both the longest one. -/
theorem Longest.unique {low : Text} {entry other : Keyword × String} (hentry : Longest low entry)
    (hother : Longest low other) : entry = other := by
  have hlength : entry.2.length = other.2.length :=
    Nat.le_antisymm (hother.longest entry hentry.listed hentry.begins)
      (hentry.longest other hother.listed hother.begins)
  have hspelling : entry.2.toList = other.2.toList := by
    refine (List.prefix_of_prefix_length_le hentry.begins hother.begins ?_).eq_of_length ?_
    · rw [String.length_toList, String.length_toList, hlength]
    · rw [String.length_toList, String.length_toList, hlength]
  exact eq_of_spelling_eq hentry.listed hother.listed (String.toList_inj.mp hspelling)

/-- The spelling that is found is the longest one that begins the line in lowercase. -/
theorem matchSpelling_eq_some_iff {line : Text} {entry : Keyword × String} :
    matchSpelling line = some entry ↔ Longest (Text.lowercase line) entry := by
  constructor
  · exact longest_of_matchSpelling
  · intro h
    cases hfound : matchSpelling line with
    | none => exact absurd h.begins (matchSpelling_eq_none_iff.mp hfound entry h.listed)
    | some other => rw [(longest_of_matchSpelling hfound).unique h]

/-- The longest spelling is the same in every lowercase of a line. -/
theorem longest_iff {line low : Text} (h : Lowers line low) {entry : Keyword × String} :
    Longest low entry ↔ Longest (Text.lowercase line) entry := by
  have hbegins (other : Keyword × String) (hother : other ∈ spellings) :=
    h.isPrefix_iff (plain_spelling hother)
  constructor
  · intro hlong
    exact ⟨hlong.listed, (hbegins entry hlong.listed).mp hlong.begins, fun other hother hprefix =>
      hlong.longest other hother ((hbegins other hother).mpr hprefix)⟩
  · intro hlong
    exact ⟨hlong.listed, (hbegins entry hlong.listed).mpr hlong.begins, fun other hother hprefix =>
      hlong.longest other hother ((hbegins other hother).mp hprefix)⟩

/-- A line divided behind its keyword: the keyword is lowered character by character to the
spelling, and the rest to what follows the spelling. -/
structure Cut (line low : Text) (spelling : String) (front rest : Text) : Prop where
  line : line = front ++ rest
  length : front.length = spelling.length
  front : Spells front spelling.toList
  rest : ∃ after, low = spelling.toList ++ after ∧ Lowers rest after

/-- A line is cut where a spelling that begins one of its lowercases ends. -/
theorem cut_of_isPrefix {line low : Text} (h : Lowers line low) {entry : Keyword × String}
    (hentry : entry ∈ spellings) (hbegins : entry.2.toList <+: low) :
    Cut line low entry.2 (line.take entry.2.length) (line.drop entry.2.length) := by
  obtain ⟨after, rfl⟩ := hbegins
  obtain ⟨front, rest, rfl, hfront, hrest⟩ := h.exists_front (plain_spelling hentry)
  have hlength : front.length = entry.2.length := by
    rw [hfront.length_eq, String.length_toList]
  rw [← hlength, List.take_left, List.drop_left]
  exact ⟨rfl, hlength, hfront, after, rfl, hrest⟩

end Keyword

/-! ## Keyword lines -/

namespace KeywordLine

/-- A line is a keyword line if a spelling is found and a colon stands behind a section keyword and
not behind a step keyword; the content is what is left. -/
theorem ofText_of_matchSpelling {line : Text} {keyword : Keyword} {spelling : String}
    (h : Keyword.matchSpelling line = some (keyword, spelling)) :
    ofText line =
      if ((line.drop spelling.length).head? = some ':' ↔ keyword.isSection = true) then
        some ⟨keyword, Text.trim
          (if keyword.isSection then (line.drop spelling.length).tail
            else line.drop spelling.length), false⟩
      else none := by
  simp only [ofText, h]
  cases hsection : keyword.isSection with
  | true =>
    cases hrest : line.drop spelling.length with
    | nil => simp
    | cons c content => by_cases hc : c = ':' <;> simp_all
  | false =>
    cases hrest : line.drop spelling.length with
    | nil => simp
    | cons c content => by_cases hc : c = ':' <;> simp_all

/-- A line is no keyword line exactly if it begins with no spelling, or if it has a colon behind the
keyword of a step or none behind that of a section. -/
theorem ofText_eq_none_iff {line : Text} :
    ofText line = none ↔ Keyword.matchSpelling line = none ∨
      ∃ keyword spelling, Keyword.matchSpelling line = some (keyword, spelling) ∧
        ¬ ((line.drop spelling.length).head? = some ':' ↔ keyword.isSection = true) := by
  cases hmatch : Keyword.matchSpelling line with
  | none => simp [ofText, hmatch]
  | some entry =>
    obtain ⟨keyword, spelling⟩ := entry
    have hfound : ∀ other spelled, some (keyword, spelling) = some (other, spelled) ↔
        other = keyword ∧ spelled = spelling := by
      intro other spelled
      rw [Option.some.injEq, Prod.mk.injEq, eq_comm, @eq_comm String]
    rw [ofText_of_matchSpelling hmatch]
    split
    · next hcolon =>
      constructor
      · intro h
        simp at h
      · rintro (h | ⟨other, spelled, hother, hnot⟩)
        · simp at h
        · obtain ⟨rfl, rfl⟩ := (hfound other spelled).mp hother
          exact absurd hcolon hnot
    · next hcolon =>
      constructor
      · intro _
        exact .inr ⟨keyword, spelling, rfl, hcolon⟩
      · intro _
        rfl

/-- A keyword line has the keyword of the spelling that is found and the trimmed text behind it. -/
theorem ofText_eq_some {line : Text} {found : KeywordLine} (h : ofText line = some found) :
    ∃ spelling, Keyword.matchSpelling line = some (found.keyword, spelling) ∧
      found.content = Text.trim
        (if found.keyword.isSection then (line.drop spelling.length).tail
          else line.drop spelling.length) ∧
      found.announces = false := by
  cases hmatch : Keyword.matchSpelling line with
  | none => simp [ofText, hmatch] at h
  | some entry =>
    obtain ⟨keyword, spelling⟩ := entry
    rw [ofText_of_matchSpelling hmatch] at h
    split at h
    · obtain rfl := Option.some.inj h
      exact ⟨spelling, rfl, rfl, rfl⟩
    · simp at h

/-- The other line is the same one, but for a final colon and the blanks in front of it. -/
inductive ColonTaken (plain : KeywordLine) : KeywordLine → Prop where
  | absent (h : plain.content.getLast? ≠ some ':') :
      ColonTaken plain ⟨plain.keyword, plain.content, false⟩
  | taken {content blanks : Text} (h : plain.content = content ++ blanks ++ [':'])
      (hblanks : ∀ c ∈ blanks, isBlank c = true) (hend : Text.NoTrailingBlank content) :
      ColonTaken plain ⟨plain.keyword, content, true⟩

private theorem colonTaken_takeColon {line : KeywordLine} (h : line.announces = false) :
    ColonTaken line line.takeColon := by
  obtain ⟨keyword, content, announces⟩ := line
  obtain rfl : announces = false := h
  rw [takeColon]
  split
  · next hcolon =>
    have hlast : content = content.dropLast ++ [':'] := by
      have hne : content ≠ [] := by
        rintro rfl
        simp at hcolon
      rw [List.getLast?_eq_some_getLast hne] at hcolon
      rw [← Option.some.inj hcolon, List.dropLast_append_getLast hne]
    have hcontent : content =
        Text.trimEnd content.dropLast ++ content.dropLast.rtakeWhile isBlank ++ [':'] := by
      rw [Text.trimEnd_eq_rdropWhile, List.rdropWhile_append_rtakeWhile]
      exact hlast
    exact .taken hcontent (fun _ hc => List.mem_rtakeWhile_imp hc) (Text.noTrailingBlank_trimEnd _)
  · next hcolon => exact .absent hcolon

/-- How a line is recognised that has the given text as its lowercase. -/
structure Recognition (line low : Text) : Prop where
  unspelled : Keyword.matchSpelling line = none ↔
    ∀ entry ∈ Keyword.spellings, ¬ entry.2.toList <+: low
  spelled : ∀ entry, Keyword.matchSpelling line = some entry ↔ Keyword.Longest low entry
  /-- As many characters as the spelling has are the keyword. -/
  cut : ∀ entry, Keyword.matchSpelling line = some entry →
    Keyword.Cut line low entry.2 (line.take entry.2.length) (line.drop entry.2.length)
  /-- A line is no keyword line if it has no keyword or its colon stands in the wrong place. -/
  ordinary : ofText line = none ↔ Keyword.matchSpelling line = none ∨
    ∃ keyword spelling, Keyword.matchSpelling line = some (keyword, spelling) ∧
      ¬ ((line.drop spelling.length).head? = some ':' ↔ keyword.isSection = true)
  /-- The content stands behind the keyword and its colon. -/
  content : ∀ found, ofText line = some found →
    ∃ spelling, Keyword.matchSpelling line = some (found.keyword, spelling) ∧
      found.content = Text.trim
        (if found.keyword.isSection then (line.drop spelling.length).tail
          else line.drop spelling.length) ∧
      found.announces = false
  /-- Read as a step, the line may lose a final colon. -/
  step : ofText line = none ∧ ofStepText line = none ∨
    ∃ plain found, ofText line = some plain ∧ ofStepText line = some found ∧
      ColonTaken plain found

/-- A line is recognised by the longest spelling its lowercase begins with, and is cut behind the
characters of the line that this spelling comes from. -/
theorem recognition_of_lowers {line low : Text} (h : Lowers line low) : Recognition line low where
  unspelled := by
    rw [Keyword.matchSpelling_eq_none_iff]
    refine forall₂_congr fun entry hentry => not_congr ?_
    exact (h.isPrefix_iff (Keyword.plain_spelling hentry)).symm
  spelled := fun entry => Keyword.matchSpelling_eq_some_iff.trans (Keyword.longest_iff h).symm
  cut := by
    intro entry hentry
    have hlongest := (Keyword.longest_iff h).mpr (Keyword.longest_of_matchSpelling hentry)
    exact Keyword.cut_of_isPrefix h hlongest.listed hlongest.begins
  ordinary := ofText_eq_none_iff
  content := fun _ hfound => ofText_eq_some hfound
  step := by
    cases hfound : ofText line with
    | none => exact .inl ⟨rfl, by rw [ofStepText, hfound]; rfl⟩
    | some plain =>
      obtain ⟨spelling, -, -, hannounces⟩ := ofText_eq_some hfound
      refine .inr ⟨plain, plain.takeColon, rfl, ?_, colonTaken_takeColon hannounces⟩
      rw [ofStepText, hfound]
      rfl

/-- The keyword holds a Kelvin sign, the dotted capital I behind it becomes two characters, and the
capital sigma ends its word. -/
theorem recognition_of_lowers_kelvin :
    ∃ line low content : Text,
      line = "Bac".toList ++ Char.ofNat 0x212A :: "Ground: ".toList ++ content ++ " :".toList ∧
      content = [Char.ofNat 0x130, Char.ofNat 0x3A3] ∧
      low = "background: i".toList ++ Char.ofNat 0x307 :: Char.ofNat 0x3C2 :: " :".toList ∧
      Lowers line low ∧ low.length = line.length + 1 ∧
      Keyword.matchSpelling line = some (.background, "background") ∧
      ofText line = some ⟨.background, content ++ " :".toList, false⟩ ∧
      ofStepText line = some ⟨.background, content, true⟩ ∧
      Recognition line low := by
  have hfront := lowers_lowercase
    ("Bac".toList ++ Char.ofNat 0x212A :: "Ground: ".toList ++ [Char.ofNat 0x130])
  have hlowers := hfront.append (.finalSigma (lowers_lowercase " :".toList))
  exact ⟨_, _, [Char.ofNat 0x130, Char.ofNat 0x3A3], rfl, rfl, rfl, hlowers, by decide +kernel,
    by decide +kernel, by decide +kernel, by decide +kernel, recognition_of_lowers hlowers⟩

end KeywordLine

end Gherkin
