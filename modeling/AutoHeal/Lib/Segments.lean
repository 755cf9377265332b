import Mathlib.Data.List.Forall2
import Mathlib.Data.List.Chain
import Mathlib.Tactic.Common

/-!
# Lists of linked segments

A checker that reads a list front to back and accepts an element when it starts a
segment or continues the element before it. `Accepts` is that checker, over any
type with a predicate `start` and a relation `next`.

* `accepts_iff_segmented`: it accepts the lists that split into segments, each a
  `start` followed by elements linked by `next`;
* `same_finalSegment`: when an element determines its predecessor, the last element
  determines the whole segment it is in;
* `exists_matching_suffix`: the same against a chain of another type.
-/

namespace AutoHeal.Segments

variable {α : Type*} (start : α → Prop) (next : α → α → Prop)

/-- Every element starts a segment or continues the one before it, `p` being what
came before the list. -/
def Accepts : Option α → List α → Prop
  | _, [] => True
  | p, a :: xs => (start a ∨ ∃ b, p = some b ∧ next b a) ∧ Accepts (some a) xs

/-- One segment. -/
def IsSegment (xs : List α) : Prop := ∃ a ys, xs = a :: ys ∧ start a ∧ List.IsChain next xs

/-- A list that splits into consecutive segments. -/
def Segmented (xs : List α) : Prop :=
  ∃ segs : List (List α), segs.flatten = xs ∧ ∀ s ∈ segs, IsSegment start next s

variable {start next}

/-! ## One element more -/

theorem accepts_append {p : Option α} {xs ys : List α} :
    Accepts start next p (xs ++ ys) ↔
      Accepts start next p xs ∧ Accepts start next (xs.getLast?.or p) ys := by
  induction xs generalizing p with
  | nil => simp [Accepts]
  | cons a xs ih =>
    have hlast : (a :: xs).getLast?.or p = xs.getLast?.or (some a) := by
      cases xs with
      | nil => rfl
      | cons b xs => simp [List.getLast?_cons]
    rw [List.cons_append, Accepts, Accepts, ih, hlast, and_assoc]

theorem accepts_snoc {xs : List α} {a : α} :
    Accepts start next none (xs ++ [a]) ↔
      Accepts start next none xs ∧ (start a ∨ ∃ b, xs.getLast? = some b ∧ next b a) := by
  rw [accepts_append]
  simp [Accepts]

theorem Accepts.of_append {p : Option α} {xs ys : List α}
    (h : Accepts start next p (xs ++ ys)) : Accepts start next p xs :=
  (accepts_append.mp h).1

/-- The first element of an accepted list starts a segment. -/
theorem Accepts.head {a : α} {xs : List α} (h : Accepts start next none (a :: xs)) : start a := by
  rcases h.1 with h | ⟨b, hb, -⟩
  · exact h
  · cases hb

/-- A property of starts that passes from each element to the next holds of every
element of an accepted list. -/
theorem Accepts.forall_mem {P : α → Prop} (hs : ∀ a, start a → P a)
    (hn : ∀ a b, P a → next a b → P b) {p : Option α} {xs : List α}
    (hp : ∀ b, p = some b → P b) (h : Accepts start next p xs) : ∀ a ∈ xs, P a := by
  induction xs generalizing p with
  | nil => intro a ha; cases ha
  | cons a xs ih =>
    have ha : P a := by
      rcases h.1 with h | ⟨b, hb, hnext⟩
      · exact hs a h
      · exact hn b a (hp b hb) hnext
    intro b hb
    rcases List.mem_cons.mp hb with rfl | hb
    · exact ha
    · exact ih (fun c hc => by cases hc; exact ha) h.2 b hb

/-- What is accepted stays accepted under weaker starts and links of the elements that
are there. -/
theorem Accepts.imp_of_forall {start' : α → Prop} {next' : α → α → Prop} {P : α → Prop}
    (hs : ∀ a, P a → start a → start' a) (hn : ∀ a b, P a → P b → next a b → next' a b)
    {p : Option α} {xs : List α} (hp : ∀ b, p = some b → P b) (hall : ∀ a ∈ xs, P a)
    (h : Accepts start next p xs) : Accepts start' next' p xs := by
  induction xs generalizing p with
  | nil => trivial
  | cons a xs ih =>
    have ha := hall a (by simp)
    refine ⟨?_, ih (fun b hb => by cases hb; exact ha) (fun b hb => hall b (by simp [hb])) h.2⟩
    rcases h.1 with h | ⟨b, hb, hnext⟩
    · exact Or.inl (hs a ha h)
    · exact Or.inr ⟨b, hb, hn b a (hp b hb) ha hnext⟩

/-- A list is accepted by what its elements are mapped to. -/
theorem accepts_map {β : Type*} (f : β → α) {p : Option β} {xs : List β} :
    Accepts start next (p.map f) (xs.map f) ↔
      Accepts (fun b => start (f b)) (fun b c => next (f b) (f c)) p xs := by
  induction xs generalizing p with
  | nil => exact Iff.rfl
  | cons b xs ih =>
    rw [List.map_cons, Accepts, Accepts, ← ih]
    refine and_congr (or_congr_right ?_) Iff.rfl
    cases p <;> simp

/-! ## Segments -/

theorem accepts_chain {a : α} {xs : List α} (h : List.IsChain next (a :: xs)) :
    Accepts start next (some a) xs := by
  induction xs generalizing a with
  | nil => trivial
  | cons b xs ih =>
    rw [List.isChain_cons_cons] at h
    exact ⟨Or.inr ⟨a, rfl, h.1⟩, ih h.2⟩

theorem IsSegment.accepts {xs : List α} (h : IsSegment start next xs) (p : Option α) :
    Accepts start next p xs := by
  obtain ⟨a, ys, rfl, hstart, hchain⟩ := h
  exact ⟨Or.inl hstart, accepts_chain hchain⟩

theorem segmented_nil : Segmented start next [] := ⟨[], rfl, fun _ h => absurd h List.not_mem_nil⟩

/-- A list accepted after `a` is the rest of the segment of `a` and more segments. -/
theorem Accepts.exists_segments {a : α} {xs : List α} (h : Accepts start next (some a) xs) :
    ∃ ys zs, xs = ys ++ zs ∧ List.IsChain next (a :: ys) ∧ Segmented start next zs := by
  induction xs generalizing a with
  | nil => exact ⟨[], [], rfl, List.isChain_singleton a, segmented_nil⟩
  | cons b xs ih =>
    obtain ⟨ys, zs, rfl, hchain, segs, hsegs, hall⟩ := ih h.2
    rcases h.1 with hstart | ⟨c, hc, hnext⟩
    · -- `b` starts a segment of its own
      refine ⟨[], b :: ys ++ zs, rfl, List.isChain_singleton a, (b :: ys) :: segs, ?_, ?_⟩
      · simp [hsegs]
      · intro s hs
        rcases List.mem_cons.mp hs with rfl | hs
        · exact ⟨b, ys, rfl, hstart, hchain⟩
        · exact hall s hs
    · cases hc
      exact ⟨b :: ys, zs, rfl, List.isChain_cons_cons.mpr ⟨hnext, hchain⟩, segs, hsegs, hall⟩

/-- The checker accepts the lists that split into segments. -/
theorem accepts_iff_segmented {xs : List α} :
    Accepts start next none xs ↔ Segmented start next xs := by
  constructor
  · intro h
    cases xs with
    | nil => exact segmented_nil
    | cons a xs =>
      obtain ⟨ys, zs, rfl, hchain, segs, hsegs, hall⟩ := h.2.exists_segments
      refine ⟨(a :: ys) :: segs, by simp [hsegs], ?_⟩
      intro s hs
      rcases List.mem_cons.mp hs with rfl | hs
      · exact ⟨a, ys, rfl, h.head, hchain⟩
      · exact hall s hs
  · rintro ⟨segs, rfl, hall⟩
    have hgen : ∀ p, Accepts start next p segs.flatten := by
      induction segs with
      | nil => intro p; trivial
      | cons s segs ih =>
        intro p
        rw [List.flatten_cons, accepts_append]
        exact ⟨(hall s (by simp)).accepts p, ih (fun t ht => hall t (by simp [ht])) _⟩
    exact hgen none

/-! ## Where the segments begin -/

/-- In a chain whose first element has `P`, later elements start no segment when
`P` passes along links and rules out starts behind them. -/
theorem tail_not_start {P : α → Prop} {a : α} {ys : List α} (ha : P a)
    (hn : ∀ x ∈ a :: ys, ∀ y ∈ ys, P x → next x y → P y ∧ ¬ start y)
    (hchain : List.IsChain next (a :: ys)) : ∀ y ∈ ys, ¬ start y := by
  induction ys generalizing a with
  | nil => intro y hy; cases hy
  | cons b ys ih =>
    rw [List.isChain_cons_cons] at hchain
    obtain ⟨hb, hsb⟩ := hn a (by simp) b (by simp) ha hchain.1
    intro y hy
    rcases List.mem_cons.mp hy with rfl | hy
    · exact hsb
    · exact ih hb (fun x hx y hy => hn x (List.mem_cons_of_mem _ hx) y (List.mem_cons_of_mem _ hy))
        hchain.2 y hy

/-- Segments whose later elements start nothing begin at the starts of the list. -/
theorem filter_start_flatten [DecidablePred start] {segs : List (List α)}
    (hsegs : ∀ s ∈ segs, IsSegment start next s)
    (htail : ∀ s ∈ segs, ∀ a ys, s = a :: ys → ∀ y ∈ ys, ¬ start y) :
    segs.flatten.filter (fun a => decide (start a)) = segs.filterMap List.head? := by
  induction segs with
  | nil => rfl
  | cons s segs ih =>
    obtain ⟨a, ys, rfl, hstart, -⟩ := hsegs s (by simp)
    have hys : ys.filter (fun b => decide (start b)) = [] :=
      List.filter_eq_nil_iff.mpr fun y hy => by simpa using htail _ (by simp) a ys rfl y hy
    rw [List.flatten_cons, List.filter_append, List.filter_cons_of_pos (by simpa using hstart), hys,
      ih (fun t ht => hsegs t (by simp [ht])) fun t ht => htail t (by simp [ht])]
    rfl

/-! ## The final segment -/

section Final

variable [DecidablePred start]

variable (start) in
/-- The elements up to the first one that starts a segment, that one included. -/
def upToStart : List α → List α
  | [] => []
  | a :: xs => if start a then [a] else a :: upToStart xs

variable (start) in
/-- The elements from the last start on. -/
def finalSegment (xs : List α) : List α := (upToStart start xs.reverse).reverse

/-- Where only the first element starts a segment, it is the only one. -/
theorem finalSegment_eq_self {xs : List α} (h : ∀ a ∈ xs.tail, ¬ start a) :
    finalSegment start xs = xs := by
  induction xs using List.reverseRecOn with
  | nil => rfl
  | append_singleton xs a ih =>
    rw [finalSegment, List.reverse_append, List.reverse_singleton, List.singleton_append, upToStart]
    cases xs with
    | nil =>
      split <;> rfl
    | cons b xs =>
      have ha : ¬ start a := h a (by simp)
      have hrest : finalSegment start (b :: xs) = b :: xs :=
        ih fun c hc => h c (List.mem_append_left [a] hc)
      rw [if_neg ha, List.reverse_cons]
      exact congrArg (fun ys => ys ++ [a]) hrest

/-- When equal elements have equal predecessors, lists with equal last elements have
equal final segments, `R` being the equality. -/
theorem same_finalSegment {R : α → α → Prop} (hstart : ∀ a b, R a b → (start a ↔ start b))
    (hback : ∀ a b a' b', R a b → next a' a → next b' b → R a' b') {xs ys : List α} {a b : α}
    (hx : Accepts start next none xs) (hy : Accepts start next none ys)
    (ha : xs.getLast? = some a) (hb : ys.getLast? = some b) (hab : R a b) :
    List.Forall₂ R (finalSegment start xs) (finalSegment start ys) := by
  induction xs using List.reverseRecOn generalizing ys a b with
  | nil => cases ha
  | append_singleton xs c ih =>
    obtain rfl : c = a := by simpa using ha
    obtain ⟨ys, rfl⟩ : ∃ zs, ys = zs ++ [b] := by
      rcases List.eq_nil_or_concat' ys with rfl | ⟨zs, d, rfl⟩
      · cases hb
      · obtain rfl : d = b := by simpa using hb
        exact ⟨zs, rfl⟩
    obtain ⟨hx, hcx⟩ := accepts_snoc.mp hx
    obtain ⟨hy, hcy⟩ := accepts_snoc.mp hy
    simp only [finalSegment, List.reverse_append, List.reverse_singleton, List.singleton_append,
      upToStart]
    by_cases hs : start c
    · rw [if_pos hs, if_pos ((hstart c b hab).mp hs)]
      exact List.Forall₂.cons hab List.Forall₂.nil
    · -- neither element starts a segment: both continue, and their predecessors are equal
      have hs' : ¬ start b := fun h => hs ((hstart c b hab).mpr h)
      obtain ⟨a', ha', hnext⟩ := hcx.resolve_left hs
      obtain ⟨b', hb', hnext'⟩ := hcy.resolve_left hs'
      have hrest := ih hx hy ha' hb' (hback c b a' b' hab hnext hnext')
      rw [if_neg hs, if_neg hs', List.reverse_cons, List.reverse_cons]
      exact List.rel_append hrest (List.Forall₂.cons hab List.Forall₂.nil)

omit [DecidablePred start] in
/-- Suppose elements that correspond to later elements of a chain start no segment, and
correspondence passes to predecessors. Then a list whose last element corresponds to
the last of the chain ends in a list that corresponds to the whole chain. -/
theorem exists_matching_suffix {β : Type*} {link : β → β → Prop} {R : α → β → Prop}
    (hstart : ∀ a b' b, R a b → link b' b → ¬ start a)
    (hback : ∀ a' a b' b, R a b → next a' a → link b' b → R a' b') {xs : List α} {ys : List β}
    {a : α} {b : β} (hx : Accepts start next none xs) (hy : List.IsChain link ys)
    (ha : xs.getLast? = some a) (hb : ys.getLast? = some b) (hab : R a b) :
    ∃ pre post, xs = pre ++ post ∧ List.Forall₂ R post ys := by
  induction ys using List.reverseRecOn generalizing xs a b with
  | nil => cases hb
  | append_singleton ys c ih =>
    obtain rfl : c = b := by simpa using hb
    rcases List.eq_nil_or_concat' xs with rfl | ⟨xs, d, rfl⟩
    · cases ha
    obtain rfl : d = a := by simpa using ha
    rcases List.eq_nil_or_concat' ys with rfl | ⟨ys, b', rfl⟩
    · exact ⟨xs, [d], rfl, .cons hab .nil⟩
    · have hchain := List.isChain_append.mp hy
      have hlink : link b' c := hchain.2.2 b' (by simp) c (by simp)
      rcases accepts_snoc.mp hx with ⟨hx, hd⟩
      rcases hd.resolve_left (hstart d b' c hab hlink) with ⟨a', ha', hnext⟩
      rcases ih hx hchain.1 ha' (by simp) (hback a' d b' c hab hnext hlink) with
        ⟨pre, post, rfl, hpost⟩
      refine ⟨pre, post ++ [d], by rw [List.append_assoc], ?_⟩
      exact List.rel_append hpost (.cons hab .nil)

end Final

end AutoHeal.Segments
