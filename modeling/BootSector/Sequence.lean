/-!
# Sequences

A sequence is known by what it does to a consumer: it hands over its elements one at a time, in
order, and stops as soon as the consumer wants no more.  So a sequence may be far longer than what
is ever looked at.
-/

namespace BootSector

/-- **A consumer** of elements of type `α`: it takes an element in a state, and gives its next state
and whether it wants another element. -/
abbrev Consumer (σ α : Type) := σ → α → σ × Bool

/-- **A sequence** of elements of type `α`.  `feed take s` hands the elements to a consumer that
starts in state `s`; it gives the last state, and whether the consumer would still take more. -/
structure Sequence (α : Type) where
  /-- Hands the elements to a consumer. -/
  feed : {σ : Type} → Consumer σ α → σ → σ × Bool

namespace Sequence

variable {α σ : Type}

/-! ### Lists -/

/-- Hands the elements of a list to a consumer. -/
def feedList (take : Consumer σ α) : σ → List α → σ × Bool
  | s, [] => (s, true)
  | s, a :: rest =>
    match take s a with
    | (s, true) => feedList take s rest
    | (s, false) => (s, false)

/-- The sequence of the elements of a list. -/
def ofList (as : List α) : Sequence α := ⟨fun take s => feedList take s as⟩

/-! ### Concatenation -/

/-- Hands the elements of several sequences to a consumer. -/
def feedAll (take : Consumer σ α) : σ → List (Sequence α) → σ × Bool
  | s, [] => (s, true)
  | s, seq :: rest =>
    match seq.feed take s with
    | (s, true) => feedAll take s rest
    | (s, false) => (s, false)

/-- **The elements of several sequences**, one sequence after another. -/
def concat (seqs : List (Sequence α)) : Sequence α := ⟨fun take s => feedAll take s seqs⟩

/-! ### Repetition -/

/-- Hands an element to a consumer, a number of times. -/
def feedCopies (take : Consumer σ α) (a : α) : σ → Nat → σ × Bool
  | s, 0 => (s, true)
  | s, n + 1 =>
    match take s a with
    | (s, true) => feedCopies take a s n
    | (s, false) => (s, false)

/-- **One element, a number of times**; not at all if the count is negative. -/
def replicate (count : Int) (a : α) : Sequence α :=
  ⟨fun take s => feedCopies take a s count.toNat⟩

/-! ### Collecting -/

/-- The consumer that keeps every element, the latest first. -/
def keepAll : Consumer (List α) α := fun kept a => (a :: kept, true)

/-- All elements of a sequence. -/
def toList (seq : Sequence α) : List α := (seq.feed keepAll []).1.reverse

/-- The consumer that keeps as many elements as its counter tells, the latest first. -/
def keepSome : Consumer (Nat × List α) α
  | (0, kept), _ => ((0, kept), false)
  | (n + 1, kept), a => ((n, a :: kept), n != 0)

/-- The first `n` elements of a sequence. -/
def take (n : Nat) (seq : Sequence α) : List α := (seq.feed keepSome (n, [])).1.2.reverse

/-! ### What the consumer sees -/

theorem feedList_cons (take : Consumer σ α) (s : σ) (a : α) (as : List α) :
    feedList take s (a :: as) =
      if (take s a).2 then feedList take (take s a).1 as else ((take s a).1, false) := by
  rw [feedList]
  rcases take s a with ⟨s', _ | _⟩ <;> rfl

theorem feedList_append (take : Consumer σ α) (s : σ) (as bs : List α) :
    feedList take s (as ++ bs) =
      match feedList take s as with
      | (s, true) => feedList take s bs
      | (s, false) => (s, false) := by
  induction as generalizing s with
  | nil => rfl
  | cons a as ih =>
    simp only [List.cons_append, feedList]
    match take s a with
    | (s, true) => exact ih s
    | (s, false) => rfl

theorem feedCopies_eq (take : Consumer σ α) (a : α) (s : σ) (n : Nat) :
    feedCopies take a s n = feedList take s (List.replicate n a) := by
  induction n generalizing s with
  | zero => rfl
  | succ n ih =>
    simp only [feedCopies, List.replicate_succ, feedList]
    match take s a with
    | (s, true) => exact ih s
    | (s, false) => rfl

theorem feedAll_ofList (take : Consumer σ α) (s : σ) (lists : List (List α)) :
    feedAll take s (lists.map ofList) = feedList take s lists.flatten := by
  induction lists generalizing s with
  | nil => rfl
  | cons as rest ih =>
    simp only [List.map_cons, feedAll, List.flatten_cons, feedList_append, ofList]
    match feedList take s as with
    | (s, true) => exact ih s
    | (s, false) => rfl

/-- A repeated element is a sequence like that of a list. -/
theorem replicate_eq_ofList (count : Int) (a : α) :
    replicate count a = ofList (List.replicate count.toNat a) := by
  unfold replicate ofList
  congr 1
  funext σ take s
  exact feedCopies_eq take a s count.toNat

theorem concat_ofList (lists : List (List α)) :
    concat (lists.map ofList) = ofList lists.flatten := by
  unfold concat ofList
  congr 1
  funext σ take s
  exact feedAll_ofList take s lists

/-! ### What is collected -/

theorem feedList_keepAll (kept as : List α) :
    feedList keepAll kept as = (as.reverse ++ kept, true) := by
  induction as generalizing kept with
  | nil => rfl
  | cons a as ih =>
    have hstep : feedList keepAll kept (a :: as) = feedList keepAll (a :: kept) as := rfl
    rw [hstep, ih, List.reverse_cons, List.append_assoc]
    rfl

theorem toList_ofList (as : List α) : (ofList as).toList = as := by
  show (feedList keepAll [] as).1.reverse = as
  rw [feedList_keepAll, List.append_nil, List.reverse_reverse]

theorem feedList_keepSome (n : Nat) (kept as : List α) :
    (feedList keepSome (n, kept) as).1.2 = (as.take n).reverse ++ kept := by
  induction as generalizing n kept with
  | nil => rw [List.take_nil]; rfl
  | cons a as ih =>
    match n with
    | 0 => rfl
    | 1 => rfl
    | n + 2 =>
      have hstep : feedList keepSome (n + 2, kept) (a :: as) =
          feedList keepSome (n + 1, a :: kept) as := rfl
      rw [hstep, ih, List.take_succ_cons, List.reverse_cons, List.append_assoc]
      rfl

theorem take_ofList (n : Nat) (as : List α) : (ofList as).take n = as.take n := by
  show (feedList keepSome (n, []) as).1.2.reverse = as.take n
  rw [feedList_keepSome, List.append_nil, List.reverse_reverse]

end Sequence

end BootSector
