import BootSector.Sequence.Consumer
import Mathlib.Data.List.Forall2

/-!
# Sequences that deliver a list

Lists deliver themselves, repeated elements as many copies as the count says, and several sequences
deliver one after another what each of them delivers.  A stop in one of the sequences ends all of
them, since the sequences of several lists make up the sequence of the joined list.
-/

namespace BootSector.Sequence

variable {α : Type}

theorem delivers_replicate (count : Int) (a : α) :
    (replicate count a).Delivers (List.replicate count.toNat a) := by
  rw [replicate_eq_ofList]
  exact delivers_ofList _

/-- **Sequences one after another deliver the joined list.**  So do lists and repeated elements
deliver theirs; hence what is put one after another may itself be made in this way. -/
theorem delivers_concat (α : Type) :
    (∀ as : List α, (ofList as).Delivers as) ∧
    (∀ (count : Int) (a : α), (replicate count a).Delivers (List.replicate count.toNat a)) ∧
    ∀ (seqs : List (Sequence α)) (lists : List (List α)), List.Forall₂ Delivers seqs lists →
      (concat seqs).Delivers lists.flatten := by
  refine ⟨delivers_ofList, delivers_replicate, fun seqs lists h => ?_⟩
  have hseqs : seqs = lists.map ofList := by
    induction h with
    | nil => rfl
    | cons hseq _ ih => rw [List.map_cons, ← ih, delivers_iff.mp hseq]
  rw [hseqs, concat_ofList]
  exact delivers_ofList _

/-- A consumer that adds up numbers and stops when it has reached ten.  From three it stops at the
last element of a list, and from zero at the first copy of a repeated element. -/
theorem delivers_concat_up_to_ten :
    let c : Consumer Nat Nat := fun s a => (s + a, decide (s + a < 10))
    let seqs : List (Sequence Nat) :=
      [ofList [3, 4], replicate (-2) 9, replicate 2 7, ofList [1]]
    (concat seqs).handed c 3 = [3, 4] ∧ (concat seqs).feed c 3 = (10, false) ∧
      (concat seqs).handed c 0 = [3, 4, 7] ∧ (concat seqs).feed c 0 = (14, false) := by
  intro c seqs
  obtain ⟨hlist, hcopies, hconcat⟩ := delivers_concat Nat
  have hdelivers : (concat seqs).Delivers [3, 4, 7, 7, 1] :=
    hconcat seqs [[3, 4], [], [7, 7], [1]]
      (.cons (hlist _) (.cons (hcopies _ _) (.cons (hcopies _ _) (.cons (hlist _) .nil))))
  have hthree : c.StopsAt 3 [3] 4 :=
    ⟨Consumer.wants_cons.mpr ⟨by decide, Consumer.wants_nil⟩, by decide⟩
  have hzero : c.StopsAt 0 [3, 4] 7 :=
    ⟨Consumer.wants_cons.mpr ⟨by decide, Consumer.wants_cons.mpr ⟨by decide, Consumer.wants_nil⟩⟩,
      by decide⟩
  obtain ⟨hhanded, hfeed⟩ := hdelivers.stopped c 3 [3] [7, 7, 1] 4 rfl hthree
  obtain ⟨hhanded', hfeed'⟩ := hdelivers.stopped c 0 [3, 4] [7, 1] 7 rfl hzero
  exact ⟨hhanded, hfeed, hhanded', hfeed'⟩

end BootSector.Sequence
