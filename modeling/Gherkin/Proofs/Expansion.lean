import Mathlib.Data.List.Forall2
import Mathlib.Data.List.Infix
import Mathlib.Algebra.Ring.Nat
import Gherkin.Expansion

/-!
# Walks through an outline

The expansion of an outline has one scenario for each row of its blocks, in their order. A walk
makes these scenarios one at a time: what it has delivered and what it would still deliver make up
the expansion, and a request moves one walk only. So, however the requests for several walks are
mixed, each walk is answered as if it were the only one.
-/

namespace Gherkin

/-! ## The scenarios of an outline -/

/-- The step of a scenario for a step of the outline: its texts are substituted, and a table stays
as it is. -/
structure Step.Instance (columns : List (Text × Text)) (step filled : Step) : Prop where
  kind : filled.kind = step.kind
  description : filled.description = Gherkin.substitute columns step.description
  bare : step.attachment = none → filled.attachment = none
  docString : ∀ content, step.attachment = some (.docString content) →
    filled.attachment = some (.docString (Gherkin.substitute columns content))
  table : ∀ grid, step.attachment = some (.table grid) → filled.attachment = some (.table grid)

private theorem Step.instance_substitute (columns : List (Text × Text)) (step : Step) :
    step.Instance columns (step.substitute columns) := by
  obtain ⟨kind, description, attachment⟩ := step
  refine ⟨rfl, rfl, ?_, ?_, ?_⟩
  · rintro rfl
    rfl
  · rintro content rfl
    rfl
  · rintro grid rfl
    rfl

namespace Outline

/-- The rows of an outline, each with its block, in document order. -/
def rows (outline : Outline) : List (Examples × List Text) :=
  outline.examples.flatMap fun block => block.values.map (block, ·)

/-- The scenario of a row: its tags are those of the row's block, and its steps are those of the
outline with the row's cells in the place of the block's own placeholders. -/
structure Instance (outline : Outline) (row : Examples × List Text) (scenario : Scenario) :
    Prop where
  tags : scenario.tags = row.1.tags
  name : scenario.name = outline.name
  description : scenario.description = outline.description
  steps : List.Forall₂ (Step.Instance (row.1.placeholders.zip row.2)) outline.steps scenario.steps

/-- The scenario that a row is instantiated to is the one of the row. -/
theorem instance_instantiate (outline : Outline) (block : Examples) (row : List Text) :
    outline.Instance (block, row) (outline.instantiate block row) where
  tags := rfl
  name := rfl
  description := rfl
  steps := by
    rw [instantiate, List.forall₂_map_right_iff]
    exact List.forall₂_same.mpr fun step _ => step.instance_substitute _

/-- The expansion of an outline has one scenario for each row. -/
theorem expand_eq_map_rows (outline : Outline) :
    outline.expand = outline.rows.map fun row => outline.instantiate row.1 row.2 := by
  rw [rows, List.map_flatMap]
  refine List.flatMap_congr fun block _ => ?_
  rw [List.map_map]
  rfl

/-- The expansion has one scenario for each row. -/
theorem forall₂_instance_expand (outline : Outline) :
    List.Forall₂ outline.Instance outline.rows outline.expand := by
  rw [expand_eq_map_rows, List.forall₂_map_right_iff]
  exact List.forall₂_same.mpr fun row _ => outline.instance_instantiate row.1 row.2

/-- The expansion of an outline has as many scenarios as its blocks have rows. -/
theorem length_expand (outline : Outline) :
    outline.expand.length = (outline.examples.map Examples.size).sum := by
  rw [expand, List.length_flatMap]
  congr 1
  refine List.map_congr_left fun block _ => ?_
  rw [List.length_map]
  rfl

end Outline

/-! ## One walk -/

namespace Walk

/-- The scenarios that a walk would still deliver. -/
def remaining (outline : Outline) : Walk → List Scenario
  | done => []
  | within block rows below => rows.map (outline.instantiate block) ++ remaining outline below

/-- A walk that begins has all scenarios of the blocks before it. -/
theorem remaining_ofBlocks (outline : Outline) (blocks : List Examples) :
    (ofBlocks blocks).remaining outline =
      blocks.flatMap fun block => block.values.map (outline.instantiate block) := by
  induction blocks with
  | nil => rfl
  | cons block below ih => rw [ofBlocks, remaining, ih, List.flatMap_cons]

/-- A walk ends when nothing remains. -/
theorem remaining_of_next_none {outline : Outline} {walk : Walk} (h : walk.next outline = none) :
    walk.remaining outline = [] := by
  induction walk with
  | done => rfl
  | within block rows below ih =>
    cases rows with
    | nil => exact ih h
    | cons row rows => simp [next] at h

/-- The next scenario is the first of those that remain. -/
theorem remaining_of_next_some {outline : Outline} {walk after : Walk} {scenario : Scenario}
    (h : walk.next outline = some (scenario, after)) :
    walk.remaining outline = scenario :: after.remaining outline := by
  induction walk with
  | done => simp [next] at h
  | within block rows below ih =>
    cases rows with
    | nil => exact ih h
    | cons row rows =>
      simp only [next, Option.some.injEq, Prod.mk.injEq] at h
      obtain ⟨rfl, rfl⟩ := h
      rfl

/-- Draining a walk gives the scenarios that it would still deliver. -/
theorem drain_eq_remaining (outline : Outline) (walk : Walk) :
    walk.drain outline = walk.remaining outline := by
  fun_induction drain outline walk with
  | case1 walk hnext => exact (remaining_of_next_none hnext).symm
  | case2 walk scenario after hnext _ ih => rw [ih, remaining_of_next_some hnext]

end Walk

/-! ## Many walks -/

namespace Walks

namespace Request

/-- The walk that a request is about. -/
def walk? : Request → Option Nat
  | .next i | .drain i => some i
  | .start | .display => none

/-- The same request where there is one walk only. -/
def alone : Request → Request
  | .next _ => .next 0
  | .drain _ => .drain 0
  | request => request

end Request

/-- The scenarios of walk `i` that come with a reply. -/
def deliveredBy (i : Nat) : Request × Reply → List Scenario
  | (.next j, .scenario found) => if j = i then found.toList else []
  | (.drain j, .scenarios found) => if j = i then found else []
  | _ => []

/-- The scenarios that walk `i` has delivered so far. -/
def delivered (i : Nat) (history : List (Request × Reply)) : List Scenario :=
  history.flatMap (deliveredBy i)

/-- The number of walks begun so far. -/
def begunIn (history : List (Request × Reply)) : Nat := history.countP (·.1 = .start)

/-- The replies to the requests about walk `i`. -/
def repliesTo (i : Nat) (history : List (Request × Reply)) : List Reply :=
  (history.filter (·.1.walk? = some i)).map Prod.snd

/-- The right reply to a request after a history. -/
inductive Answers (outline : Outline) (history : List (Request × Reply)) : Request → Reply → Prop
    where
  /-- Walks are numbered in the order in which they are begun. -/
  | start : Answers outline history .start (.started (begunIn history))
  /-- The next scenario follows those delivered before. -/
  | next {i : Nat} {scenario : Scenario}
      (h : delivered i history ++ [scenario] <+: outline.expand) :
      Answers outline history (.next i) (.scenario (some scenario))
  /-- There is none when all are delivered. -/
  | exhausted {i : Nat} (h : delivered i history = outline.expand) :
      Answers outline history (.next i) (.scenario none)
  /-- Nothing is left out and nothing is left. -/
  | drain {i : Nat} {rest : List Scenario} (h : delivered i history ++ rest = outline.expand) :
      Answers outline history (.drain i) (.scenarios rest)
  /-- The outline is as it was. -/
  | display : Answers outline history .display (.outline outline)

/-- The walks when some requests are served. -/
def after (walks : Walks) (requests : List Request) : Walks :=
  requests.foldl (fun walks request => (walks.serve request).1) walks

private theorem deliveredBy_of_walk?_ne {i : Nat} {request : Request} (h : request.walk? ≠ some i)
    (reply : Reply) : deliveredBy i (request, reply) = [] := by
  cases request <;> cases reply <;> simp_all [Request.walk?, deliveredBy]

private theorem delivered_concat (i : Nat) (history : List (Request × Reply))
    (last : Request × Reply) :
    delivered i (history ++ [last]) = delivered i history ++ deliveredBy i last := by
  simp [delivered]

private theorem begunIn_concat (history : List (Request × Reply)) (request : Request)
    (reply : Reply) :
    begunIn (history ++ [(request, reply)]) =
      begunIn history + if request = .start then 1 else 0 := by
  simp [begunIn, List.countP_append, List.countP_singleton]

@[simp] theorem serve_outline (walks : Walks) (request : Request) :
    (walks.serve request).1.outline = walks.outline := by
  cases request with
  | start => rfl
  | next i => simp only [serve]; split <;> rfl
  | drain i => simp only [serve]; split <;> rfl
  | display => rfl

private theorem set_eq_self {walks : Walks} {i : Nat} {walk : Walk}
    (h : walks.begun[i]? = some walk) :
    walks.begun.set i walk = walks.begun := by
  obtain ⟨hi, rfl⟩ := List.getElem?_eq_some_iff.mp h
  exact List.set_getElem_self hi

/-- A request about a walk delivers a front of what the walk has left and moves no other walk. The
reply is the one that the walk would give alone. -/
theorem serve_about {walks : Walks} {request : Request} {i : Nat} {walk : Walk}
    (hrequest : request.walk? = some i) (hwalk : walks.begun[i]? = some walk) :
    ∃ moved reply,
      walks.serve request = ({ walks with begun := walks.begun.set i moved }, reply) ∧
      Walks.serve ⟨walks.outline, [walk]⟩ request.alone = (⟨walks.outline, [moved]⟩, reply) ∧
      walk.remaining walks.outline =
        deliveredBy i (request, reply) ++ moved.remaining walks.outline := by
  cases request with
  | start => exact absurd hrequest (by simp [Request.walk?])
  | display => exact absurd hrequest (by simp [Request.walk?])
  | next j =>
    obtain rfl : j = i := Option.some.inj hrequest
    cases hnext : walk.next walks.outline with
    | none =>
      refine ⟨walk, .scenario none, ?_, ?_, ?_⟩
      · simp only [serve, hwalk, Option.bind_some, hnext, set_eq_self hwalk]
      · simp [serve, Request.alone, hnext]
      · simp [deliveredBy]
    | some found =>
      obtain ⟨scenario, moved⟩ := found
      refine ⟨moved, .scenario (some scenario), ?_, ?_, ?_⟩
      · simp only [serve, hwalk, Option.bind_some, hnext]
      · simp [serve, Request.alone, hnext]
      · simpa [deliveredBy] using Walk.remaining_of_next_some hnext
  | drain j =>
    obtain rfl : j = i := Option.some.inj hrequest
    refine ⟨.done, .scenarios (walk.drain walks.outline), ?_, ?_, ?_⟩
    · simp only [serve, hwalk]
    · simp [serve, Request.alone]
    · simp [deliveredBy, Walk.remaining, Walk.drain_eq_remaining]

/-- A walk that was not begun delivers nothing and stays so. -/
theorem serve_unbegun {walks : Walks} {request : Request} {i : Nat}
    (hrequest : request.walk? = some i) (hwalk : walks.begun[i]? = none) :
    (walks.serve request).1 = walks ∧ deliveredBy i (request, (walks.serve request).2) = [] := by
  cases request with
  | start => exact absurd hrequest (by simp [Request.walk?])
  | display => exact absurd hrequest (by simp [Request.walk?])
  | next j =>
    obtain rfl : j = i := Option.some.inj hrequest
    simp [serve, hwalk, deliveredBy]
  | drain j =>
    obtain rfl : j = i := Option.some.inj hrequest
    simp [serve, hwalk, deliveredBy]

/-- A request that is about no walk, or about another one, leaves a walk where it is. -/
theorem getElem?_begun_serve {walks : Walks} {request : Request} {i : Nat}
    (hrequest : request.walk? ≠ some i) (hi : i < walks.begun.length) :
    (walks.serve request).1.begun[i]? = walks.begun[i]? := by
  cases hother : request.walk? with
  | none =>
    cases request with
    | start => exact List.getElem?_append_left hi
    | display => rfl
    | next j => exact absurd hother (by simp [Request.walk?])
    | drain j => exact absurd hother (by simp [Request.walk?])
  | some j =>
    have hne : j ≠ i := fun h => hrequest (h ▸ hother)
    cases hj : walks.begun[j]? with
    | none => rw [(serve_unbegun hother hj).1]
    | some other =>
      obtain ⟨moved, reply, hserve, -, -⟩ := serve_about hother hj
      rw [hserve, List.getElem?_set_ne hne]

/-- Serving a request begins a walk exactly if the request is to start one. -/
theorem length_begun_serve (walks : Walks) (request : Request) :
    (walks.serve request).1.begun.length =
      walks.begun.length + if request = .start then 1 else 0 := by
  cases hrequest : request.walk? with
  | none =>
    cases request with
    | start => simp [serve]
    | display => simp [serve]
    | next j => exact absurd hrequest (by simp [Request.walk?])
    | drain j => exact absurd hrequest (by simp [Request.walk?])
  | some i =>
    have hstart : request ≠ .start := by
      rintro rfl
      simp [Request.walk?] at hrequest
    rw [if_neg hstart, Nat.add_zero]
    cases hi : walks.begun[i]? with
    | none => rw [(serve_unbegun hrequest hi).1]
    | some walk =>
      obtain ⟨moved, reply, hserve, -, -⟩ := serve_about hrequest hi
      rw [hserve, List.length_set]

/-- After a history every walk has delivered a front of the expansion and has the rest of it
left. -/
structure Stand (outline : Outline) (history : List (Request × Reply)) (walks : Walks) : Prop where
  same : walks.outline = outline
  length : walks.begun.length = begunIn history
  begun : ∀ i walk, walks.begun[i]? = some walk →
    delivered i history ++ walk.remaining outline = outline.expand
  unbegun : ∀ i, walks.begun[i]? = none → delivered i history = []

namespace Stand

variable {outline : Outline} {history : List (Request × Reply)} {walks : Walks}

private theorem start (outline : Outline) : Stand outline [] { outline } where
  same := rfl
  length := rfl
  begun := by simp
  unbegun := fun _ _ => rfl

/-- What a walk has delivered is a front part of the expansion. -/
theorem delivered_isPrefix (h : Stand outline history walks) (i : Nat) :
    delivered i history <+: outline.expand := by
  cases hwalk : walks.begun[i]? with
  | none =>
    rw [h.unbegun i hwalk]
    exact List.nil_prefix
  | some walk => exact ⟨_, h.begun i walk hwalk⟩

/-- A walk that is there after a request was there before, or it is the one just begun. -/
theorem begun_serve (h : Stand outline history walks) (request : Request) {i : Nat} {walk : Walk}
    (hwalk : (walks.serve request).1.begun[i]? = some walk) :
    delivered i (history ++ [(request, (walks.serve request).2)]) ++ walk.remaining outline =
      outline.expand := by
  rw [delivered_concat]
  by_cases hi : i < walks.begun.length
  · have hbefore := List.getElem?_eq_getElem hi
    by_cases hrequest : request.walk? = some i
    · obtain ⟨moved, reply, hserve, -, hremaining⟩ := serve_about hrequest hbefore
      rw [hserve, List.getElem?_set_self hi] at hwalk
      obtain rfl : moved = walk := Option.some.inj hwalk
      rw [h.same] at hremaining
      rw [hserve, List.append_assoc, ← hremaining]
      exact h.begun i _ hbefore
    · rw [getElem?_begun_serve hrequest hi] at hwalk
      rw [deliveredBy_of_walk?_ne hrequest, List.append_nil]
      exact h.begun i walk hwalk
  · have hlast := (List.getElem?_eq_some_iff.mp hwalk).1
    rw [length_begun_serve] at hlast
    obtain rfl : request = .start := by
      by_contra hother
      rw [if_neg hother] at hlast
      omega
    obtain rfl : i = walks.begun.length := by
      rw [if_pos rfl] at hlast
      omega
    have hnew : walk = .ofBlocks outline.examples := by
      rw [← h.same]
      simpa [serve] using hwalk.symm
    have hnone := h.unbegun walks.begun.length (List.getElem?_eq_none (Nat.le_refl _))
    rw [hnone, hnew, Walk.remaining_ofBlocks]
    rfl

/-- Serving a request keeps the account of every walk. -/
theorem serve (h : Stand outline history walks) (request : Request) :
    Stand outline (history ++ [(request, (walks.serve request).2)]) (walks.serve request).1 where
  same := by rw [serve_outline, h.same]
  length := by rw [length_begun_serve, begunIn_concat, h.length]
  begun := fun _ _ hwalk => h.begun_serve request hwalk
  unbegun := by
    intro i hnone
    have hlength := length_begun_serve walks request
    have hbefore : walks.begun[i]? = none := by
      rw [List.getElem?_eq_none_iff] at hnone ⊢
      omega
    rw [delivered_concat, h.unbegun i hbefore, List.nil_append]
    by_cases hrequest : request.walk? = some i
    · exact (serve_unbegun hrequest hbefore).2
    · exact deliveredBy_of_walk?_ne hrequest _

/-- A request about a walk that was begun is given the right reply. -/
theorem answers (h : Stand outline history walks) {request : Request}
    (hbegun : ∀ i, request.walk? = some i → i < begunIn history) :
    Answers outline history request (walks.serve request).2 := by
  cases request with
  | start =>
    have hreply : (walks.serve .start).2 = .started (begunIn history) :=
      congrArg Reply.started h.length
    rw [hreply]
    exact .start
  | display =>
    have hreply : (walks.serve .display).2 = .outline outline := congrArg Reply.outline h.same
    rw [hreply]
    exact .display
  | next i =>
    have hi : i < walks.begun.length := h.length ▸ hbegun i rfl
    have hwalk := List.getElem?_eq_getElem hi
    have hsplit := h.begun i _ hwalk
    simp only [Walks.serve, hwalk, Option.bind_some, h.same]
    cases hnext : walks.begun[i].next outline with
    | none =>
      rw [Walk.remaining_of_next_none hnext, List.append_nil] at hsplit
      exact .exhausted hsplit
    | some found =>
      obtain ⟨scenario, moved⟩ := found
      rw [Walk.remaining_of_next_some hnext] at hsplit
      exact .next ⟨moved.remaining outline, by simpa using hsplit⟩
  | drain i =>
    have hi : i < walks.begun.length := h.length ▸ hbegun i rfl
    have hwalk := List.getElem?_eq_getElem hi
    simp only [Walks.serve, hwalk, h.same, Walk.drain_eq_remaining]
    exact .drain (h.begun i _ hwalk)

/-- What holds before some requests holds after them. -/
theorem serveAll (h : Stand outline history walks) (requests : List Request) :
    Stand outline (history ++ requests.zip (walks.serveAll requests)) (walks.after requests) := by
  induction requests generalizing history walks with
  | nil => simpa [Walks.serveAll, after] using h
  | cons request rest ih =>
    have hrest := ih (h.serve request)
    rw [List.append_assoc] at hrest
    exact hrest

/-- Each reply to a series of requests is right after those in front of it. -/
theorem answers_serveAll (h : Stand outline history walks) {requests : List Request}
    {before rest : List (Request × Reply)} {request : Request} {reply : Reply}
    (hsplit : requests.zip (walks.serveAll requests) = before ++ (request, reply) :: rest)
    (hbegun : ∀ i, request.walk? = some i → i < begunIn (history ++ before)) :
    Answers outline (history ++ before) request reply := by
  induction requests generalizing history walks before with
  | nil => simp at hsplit
  | cons first more ih =>
    have hzip : (first :: more).zip (walks.serveAll (first :: more)) =
        (first, (walks.serve first).2) :: more.zip ((walks.serve first).1.serveAll more) := rfl
    rw [hzip] at hsplit
    cases before with
    | nil =>
      obtain ⟨hfirst, -⟩ := List.cons.inj hsplit
      obtain ⟨rfl, rfl⟩ := Prod.mk.inj hfirst
      rw [List.append_nil] at hbegun ⊢
      exact h.answers hbegun
    | cons exchange before =>
      obtain ⟨rfl, hmore⟩ := List.cons.inj hsplit
      rw [List.append_cons] at hbegun ⊢
      exact ih (h.serve first) hmore hbegun

end Stand

/-- Requests are served one after the other. -/
theorem serveAll_append (walks : Walks) (requests more : List Request) :
    walks.serveAll (requests ++ more) =
      walks.serveAll requests ++ (walks.after requests).serveAll more := by
  induction requests generalizing walks with
  | nil => rfl
  | cons request rest ih => exact congrArg ((walks.serve request).2 :: ·) (ih _)

/-- Every request gets one reply. -/
theorem length_serveAll (walks : Walks) (requests : List Request) :
    (walks.serveAll requests).length = requests.length := by
  induction requests generalizing walks with
  | nil => rfl
  | cons request rest ih => exact congrArg (· + 1) (ih _)

/-- However other requests are mixed with those about a walk, it replies as if it were alone. -/
theorem repliesTo_serveAll {walks : Walks} {i : Nat} {walk : Walk}
    (hwalk : walks.begun[i]? = some walk) (requests : List Request) :
    repliesTo i (requests.zip (walks.serveAll requests)) =
      Walks.serveAll ⟨walks.outline, [walk]⟩
        ((requests.filter (·.walk? = some i)).map Request.alone) := by
  induction requests generalizing walks walk with
  | nil => rfl
  | cons request rest ih =>
    by_cases hrequest : request.walk? = some i
    · obtain ⟨moved, reply, hserve, halone, -⟩ := serve_about hrequest hwalk
      have hmoved : (walks.serve request).1.begun[i]? = some moved := by
        rw [hserve]
        exact List.getElem?_set_self (List.getElem?_eq_some_iff.mp hwalk).1
      have hrest := ih hmoved
      rw [serve_outline] at hrest
      rw [List.filter_cons_of_pos (by simpa using hrequest), List.map_cons]
      simp only [Walks.serveAll, halone, ← hrest]
      rw [List.zip_cons_cons, repliesTo, List.filter_cons_of_pos (by simpa using hrequest),
        List.map_cons, hserve]
      rfl
    · have hi := (List.getElem?_eq_some_iff.mp hwalk).1
      have hrest := ih ((getElem?_begun_serve hrequest hi).trans hwalk)
      rw [serve_outline] at hrest
      rw [List.filter_cons_of_neg (by simpa using hrequest), ← hrest]
      simp only [Walks.serveAll]
      rw [List.zip_cons_cons, repliesTo, List.filter_cons_of_neg (by simpa using hrequest)]
      rfl

private theorem begunIn_zip {requests : List Request} {replies : List Reply}
    (h : replies.length = requests.length) :
    begunIn (requests.zip replies) = requests.count .start := by
  have hfirst : (requests.zip replies).map Prod.fst = requests := List.map_fst_zip h.ge
  have hcount : begunIn (requests.zip replies) =
      ((requests.zip replies).map Prod.fst).countP (· = .start) := by
    rw [List.countP_map]
    rfl
  rw [hcount, hfirst, List.count]
  exact List.countP_congr fun request _ => by simp

/-- A walk begins in front of all blocks. -/
theorem Stand.begun_start {outline : Outline} {history : List (Request × Reply)} {walks : Walks}
    (h : Stand outline history walks) :
    (walks.serve .start).1.begun[begunIn history]? = some (.ofBlocks outline.examples) := by
  rw [← h.length, ← h.same]
  simp [Walks.serve]

/-- The replies to some requests about the walks through an outline. -/
structure Session (outline : Outline) (requests : List Request) (replies : List Reply) : Prop where
  length : replies.length = requests.length
  /-- At any time, what a walk has delivered is a front of the expansion. -/
  delivered : ∀ history, history <+: requests.zip replies →
    ∀ i, delivered i history <+: outline.expand
  /-- Every request, unless it is about a walk that was not begun, has the right reply. -/
  answers : ∀ before request reply rest, requests.zip replies = before ++ (request, reply) :: rest →
    (∀ i, request.walk? = some i → i < begunIn before) → Answers outline before request reply
  /-- A walk is answered as if it were the only one. -/
  alone : ∀ before rest, requests = before ++ .start :: rest →
    .started 0 :: repliesTo (before.count .start) (rest.zip (replies.drop (before.length + 1))) =
      { outline : Walks }.serveAll
        (.start :: (rest.filter (·.walk? = some (before.count .start))).map Request.alone)

/-- The replies to any requests are as described. -/
theorem session (outline : Outline) (requests : List Request) :
    Session outline requests ({ outline : Walks }.serveAll requests) where
  length := length_serveAll _ requests
  delivered := by
    rintro history ⟨rest, hrest⟩ i
    have hwhole := (Stand.start outline).serveAll requests
    rw [List.nil_append, ← hrest] at hwhole
    have hfront : Walks.delivered i history <+: Walks.delivered i (history ++ rest) := by
      rw [Walks.delivered, Walks.delivered, List.flatMap_append]
      exact List.prefix_append _ _
    exact hfront.trans (hwhole.delivered_isPrefix i)
  answers := fun _ _ _ _ hsplit hbegun => (Stand.start outline).answers_serveAll hsplit hbegun
  alone := by
    rintro before rest rfl
    have hstand := (Stand.start outline).serveAll before
    have hlength := length_serveAll { outline } before
    have hbegun := hstand.begun_start
    rw [List.nil_append, begunIn_zip hlength] at hbegun
    have hreplies := repliesTo_serveAll hbegun rest
    rw [serve_outline, hstand.same] at hreplies
    have hdrop :
        ({ outline : Walks }.serveAll (before ++ .start :: rest)).drop (before.length + 1) =
          (({ outline : Walks }.after before).serve .start).1.serveAll rest := by
      rw [serveAll_append, ← hlength, List.drop_append]
      simp [Walks.serveAll]
    rw [hdrop, hreplies]
    rfl

end Walks

/-- The expansion of an outline has one scenario for each row of its blocks, in order, made from
that row and its block. However many walks go through the outline and however their requests are
mixed, each delivers the expansion from its beginning, scenario by scenario or the rest at once, as
if it were the only one; the outline stays as it is. -/
theorem serveAll_expand (outline : Outline) :
    List.Forall₂ outline.Instance outline.rows outline.expand ∧
    outline.expand.length = (outline.examples.map Examples.size).sum ∧
    ∀ requests : List Walks.Request,
      Walks.Session outline requests ({ outline : Walks }.serveAll requests) ∧
      ({ outline : Walks }.after requests).outline = outline := by
  refine ⟨outline.forall₂_instance_expand, outline.length_expand, fun requests => ⟨?_, ?_⟩⟩
  · exact Walks.session outline requests
  · exact ((Walks.Stand.start outline).serveAll requests).same

/-- Two walks take turns, past a block without rows. -/
example :
    let outline : Outline := ⟨[], none, none, [⟨.given, "<a>".toList, none⟩],
      [⟨[], none, ["a".toList], [["1".toList]]⟩, ⟨[], none, ["a".toList], []⟩,
        ⟨["t".toList], none, ["b".toList, "a".toList], [["2".toList, "3".toList]]⟩]⟩
    let first : Scenario := ⟨[], none, none, [⟨.given, "1".toList, none⟩]⟩
    let second : Scenario := ⟨["t".toList], none, none, [⟨.given, "3".toList, none⟩]⟩
    { outline : Walks }.serveAll
        [.start, .next 0, .start, .next 0, .drain 1, .next 0, .next 1, .drain 0] =
      [.started 0, .scenario (some first), .started 1, .scenario (some second),
        .scenarios [first, second], .scenario none, .scenario none, .scenarios []] := by
  decide +kernel

end Gherkin
