import BootSector.Sequence

/-!
# Consumers of a sequence

A consumer has a state and may stop at any element, for reasons that depend on all it has taken
before.  There is one notion of that here: it wants more behind each element of some list
(`Consumer.Wants`).  A consumer stops at an element if it wants all elements in front of it and no
more behind it (`Consumer.StopsAt`); and it stops after `t` elements if the lists that it wants are
those of fewer elements (`Consumer.StopsAfter`).

`Delivers seq as` says what any consumer can rely on: it is handed the elements of `as` one after
another, up to the one at which it stops, and none behind it; and its last state is the one after
these elements.  A sequence that delivers a list is the sequence of that list (`delivers_iff`).
-/

namespace BootSector

namespace Consumer

variable {σ α : Type} {c : Consumer σ α} {s : σ} {a : α} {as kept : List α}

/-! ### Elements that a consumer wants -/

/-- The state of a consumer that has taken the elements of a list. -/
def after (c : Consumer σ α) (s : σ) (as : List α) : σ := as.foldl (fun s a => (c s a).1) s

/-- **The consumer wants more** behind every element of the list. -/
def Wants (c : Consumer σ α) (s : σ) (as : List α) : Prop :=
  ∀ front a, front ++ [a] <+: as → (c (c.after s front) a).2 = true

/-- **The consumer stops at `a`** behind the elements `front`: it wants more behind each of these,
and not behind `a`. -/
def StopsAt (c : Consumer σ α) (s : σ) (front : List α) (a : α) : Prop :=
  c.Wants s front ∧ (c (c.after s front) a).2 = false

/-- **The consumer stops after `t` elements**, whatever they are: it wants more behind fewer
elements, and not behind as many. -/
def StopsAfter (c : Consumer σ α) (s : σ) (t : Nat) : Prop :=
  ∀ as, c.Wants s as ↔ as.length < t

theorem wants_nil : c.Wants s [] := by
  intro front a h
  exact absurd (List.prefix_nil.mp h) (by simp)

theorem wants_cons : c.Wants s (a :: as) ↔ (c s a).2 = true ∧ c.Wants (c s a).1 as := by
  constructor
  · intro h
    refine ⟨h [] a (by simp), fun front b hfront => ?_⟩
    exact h (a :: front) b (List.cons_prefix_cons.mpr ⟨rfl, hfront⟩)
  · rintro ⟨hmore, h⟩ front b hfront
    cases front with
    | nil =>
      obtain rfl := (List.cons_prefix_cons.mp hfront).1
      exact hmore
    | cons b' front =>
      obtain ⟨rfl, htail⟩ := List.cons_prefix_cons.mp hfront
      exact h front b htail

/-- A consumer wants all of a list, or there is a first element at which it stops. -/
theorem wants_or_stopsAt (c : Consumer σ α) (s : σ) (as : List α) :
    c.Wants s as ∨ ∃ front a rest, as = front ++ a :: rest ∧ c.StopsAt s front a := by
  induction as generalizing s with
  | nil => exact .inl wants_nil
  | cons a as ih =>
    cases hmore : (c s a).2 with
    | false => exact .inr ⟨[], a, as, rfl, wants_nil, hmore⟩
    | true =>
      rcases ih (c s a).1 with h | ⟨front, b, rest, rfl, h, hstop⟩
      · exact .inl (wants_cons.mpr ⟨hmore, h⟩)
      · exact .inr ⟨a :: front, b, rest, rfl, wants_cons.mpr ⟨hmore, h⟩, hstop⟩

/-- A consumer that stops at an element does not want a list that goes up to it. -/
theorem StopsAt.not_wants {front : List α} (h : c.StopsAt s front a) :
    ¬ c.Wants s (front ++ [a]) := by
  intro hwants
  have hmore := hwants front a (List.prefix_refl _)
  rw [h.2] at hmore
  cases hmore

/-- The consumer that keeps some elements stops when it has them. -/
theorem stopsAfter_keepSome (n : Nat) (kept : List α) :
    StopsAfter Sequence.keepSome (n + 1, kept) (n + 1) := by
  intro as
  induction as generalizing n kept with
  | nil => exact iff_of_true wants_nil n.succ_pos
  | cons a as ih =>
    have hstep : Sequence.keepSome (n + 1, kept) a = ((n, a :: kept), n != 0) := rfl
    rw [wants_cons, hstep, List.length_cons, Nat.add_lt_add_iff_right]
    cases n with
    | zero => simp
    | succ n => simp [ih]

/-! ### What a consumer was handed -/

/-- The consumer that also keeps what it is handed, the latest first. -/
def recording (c : Consumer σ α) : Consumer (σ × List α) α :=
  fun (s, kept) a => (((c s a).1, a :: kept), (c s a).2)

theorem recording_after : c.recording.after (s, kept) as = (c.after s as, as.reverse ++ kept) := by
  induction as generalizing s kept with
  | nil => rfl
  | cons a as ih =>
    have hstep : c.recording.after (s, kept) (a :: as) =
        c.recording.after ((c s a).1, a :: kept) as := rfl
    rw [hstep, ih, List.reverse_cons, List.append_assoc]
    rfl

/-- To keep what it is handed makes no difference to where a consumer stops. -/
theorem recording_wants (h : c.Wants s as) : c.recording.Wants (s, kept) as := by
  intro front a hfront
  rw [recording_after]
  exact h front a hfront

theorem recording_stopsAt {front : List α} (h : c.StopsAt s front a) :
    c.recording.StopsAt (s, kept) front a := by
  refine ⟨recording_wants h.1, ?_⟩
  rw [recording_after]
  exact h.2

end Consumer

namespace Sequence

variable {σ α : Type} {c : Consumer σ α} {s : σ} {seq : Sequence α} {a : α} {as : List α}

/-- **What a sequence hands to a consumer** that starts in a state, up to the element at which the
consumer stops. -/
def handed (seq : Sequence α) (c : Consumer σ α) (s : σ) : List α :=
  (seq.feed c.recording (s, [])).1.2.reverse

/-! ### Lists -/

theorem feedList_of_wants (h : c.Wants s as) : feedList c s as = (c.after s as, true) := by
  induction as generalizing s with
  | nil => rfl
  | cons a as ih =>
    obtain ⟨hmore, h⟩ := Consumer.wants_cons.mp h
    rw [feedList_cons, if_pos hmore, ih h]
    rfl

theorem feedList_of_stopsAt {front : List α} (h : c.StopsAt s front a) (rest : List α) :
    feedList c s (front ++ a :: rest) = (c.after s (front ++ [a]), false) := by
  have hafter : c.after s (front ++ [a]) = (c (c.after s front) a).1 := List.foldl_append
  rw [feedList_append, feedList_of_wants h.1, hafter]
  show feedList c (c.after s front) (a :: rest) = _
  rw [feedList_cons, h.2]
  rfl

/-! ### Delivery -/

/-- **The sequence delivers the list** to every consumer, in whatever state it starts. -/
structure Delivers (seq : Sequence α) (as : List α) : Prop where
  /-- A consumer that wants more behind every element is handed all of them. -/
  finished {σ : Type} (c : Consumer σ α) (s : σ) : c.Wants s as →
    seq.handed c s = as ∧ seq.feed c s = (c.after s as, true)
  /-- A consumer that stops is handed the elements up to the one at which it stops. -/
  stopped {σ : Type} (c : Consumer σ α) (s : σ) (front rest : List α) (a : α) :
    as = front ++ a :: rest → c.StopsAt s front a →
      seq.handed c s = front ++ [a] ∧ seq.feed c s = (c.after s (front ++ [a]), false)

/-- **Lists deliver themselves.** -/
theorem delivers_ofList (as : List α) : (ofList as).Delivers as where
  finished c s h := by
    refine ⟨?_, feedList_of_wants h⟩
    show (feedList c.recording (s, []) as).1.2.reverse = as
    rw [feedList_of_wants (Consumer.recording_wants h), Consumer.recording_after, List.append_nil,
      List.reverse_reverse]
  stopped c s front rest a has h := by
    subst has
    refine ⟨?_, feedList_of_stopsAt h rest⟩
    show (feedList c.recording (s, []) (front ++ a :: rest)).1.2.reverse = front ++ [a]
    rw [feedList_of_stopsAt (Consumer.recording_stopsAt h), Consumer.recording_after,
      List.append_nil, List.reverse_reverse]

/-- **A sequence that delivers a list is the sequence of that list.** -/
theorem delivers_iff : seq.Delivers as ↔ seq = ofList as := by
  constructor
  · intro h
    -- a consumer is done with the list in one of two ways, and both sequences agree in each
    have hfeed {σ : Type} (c : Consumer σ α) (s : σ) : seq.feed c s = (ofList as).feed c s := by
      rcases c.wants_or_stopsAt s as with hwants | ⟨front, a, rest, has, hstops⟩
      · rw [(h.finished c s hwants).2, ((delivers_ofList as).finished c s hwants).2]
      · rw [(h.stopped c s front rest a has hstops).2,
          ((delivers_ofList as).stopped c s front rest a has hstops).2]
    cases seq
    congr 1
    funext σ c s
    exact hfeed c s
  · rintro rfl
    exact delivers_ofList as

/-- **A consumer that stops after `t` elements is handed the first `t`**, or all there are. -/
theorem Delivers.handed_eq_take {t : Nat} (h : seq.Delivers as) (hstops : c.StopsAfter s t) :
    seq.handed c s = as.take t := by
  rcases c.wants_or_stopsAt s as with hwants | ⟨front, a, rest, has, hstop⟩
  · have hlength : as.length < t := (hstops as).mp hwants
    rw [(h.finished c s hwants).1, List.take_of_length_le (by omega)]
  · -- the element at which it stops is the last one of the first `t`
    have hfront : front.length < t := (hstops front).mp hstop.1
    have hnext : ¬ (front ++ [a]).length < t := fun hlt => hstop.not_wants ((hstops _).mpr hlt)
    rw [List.length_append, List.length_singleton] at hnext
    obtain rfl : t = front.length + 1 := by omega
    rw [(h.stopped c s front rest a has hstop).1, has, List.take_length_add_append]
    rfl

end Sequence

end BootSector
