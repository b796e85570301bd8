/-
  Foundation/Hands.lean --- things that are in the hands of threads.

  Every thread is in some place of its program, which tells what it has in hand.  Where no
  thing is twice among all the hands, two threads have nothing in common.

  Nothing here names the server; the later files instantiate it.
-/
import SessionServer.Foundation.Stacks

set_option autoImplicit false

namespace SessionServer.Foundation

variable {α β : Type} {hand : β → List α} {threads : List β} {t u : Nat} {pc pc' : β} {a : α}

/-- What the threads have in hand together. -/
def hands (hand : β → List α) (threads : List β) : List α := threads.flatMap hand

theorem mem_hands : a ∈ hands hand threads ↔ ∃ (t : Nat) (pc : β), threads[t]? = some pc ∧ a ∈ hand pc := by
  rw [hands, List.mem_flatMap]
  constructor
  · rintro ⟨pc, hpc, ha⟩
    obtain ⟨t, ht⟩ := List.mem_iff_getElem?.mp hpc
    exact ⟨t, pc, ht, ha⟩
  · rintro ⟨t, pc, ht, ha⟩
    exact ⟨pc, List.mem_of_getElem? ht, ha⟩

/-- A thread moves: what it had in hand goes, what it has in hand comes. -/
theorem count_hands_set [DecidableEq α] (hand : β → List α) (h : threads[t]? = some pc) (pc' : β) (a : α) :
    (hands hand (threads.set t pc')).count a + (hand pc).count a =
      (hands hand threads).count a + (hand pc').count a := by
  simp only [hands, List.count_flatMap]
  exact sum_map_set (fun pc => (hand pc).count a) pc' h

/-- Two threads have nothing in common. -/
theorem disjoint_of_nodup_hands (h : (hands hand threads).Nodup) (ht : threads[t]? = some pc)
    (hu : threads[u]? = some pc') (hne : u ≠ t) (ha : a ∈ hand pc) : a ∉ hand pc' := by
  have hpairwise := (List.nodup_flatMap.mp h).2
  rw [List.pairwise_iff_getElem] at hpairwise
  obtain ⟨htlt, rfl⟩ := List.getElem?_eq_some_iff.mp ht
  obtain ⟨hult, rfl⟩ := List.getElem?_eq_some_iff.mp hu
  rcases Nat.lt_or_gt_of_ne hne with hlt | hlt
  · exact fun hmem => (hpairwise u t hult htlt hlt) hmem ha
  · exact fun hmem => (hpairwise t u htlt hult hlt) ha hmem

/-- A thread moves: what it has in hand then it had before, or nobody had. -/
theorem nodup_hands_set (h : (hands hand threads).Nodup) (ht : threads[t]? = some pc)
    (hnew : (hand pc').Nodup)
    (hothers : ∀ other ∈ threads, ∀ a ∈ hand pc', a ∈ hand pc ∨ a ∉ hand other) :
    (hands hand (threads.set t pc')).Nodup := by
  have hapart : ∀ (u : Nat) (other : β), u ≠ t → threads[u]? = some other →
      (hand pc').Disjoint (hand other) := by
    intro u other hne hu a ha hother
    rcases hothers other (List.mem_of_getElem? hu) a ha with hmine | hnobody
    · exact disjoint_of_nodup_hands h ht hu hne hmine hother
    · exact hnobody hother
  refine List.nodup_flatMap.mpr ⟨fun other hother => ?_, ?_⟩
  · rcases List.mem_or_eq_of_mem_set hother with hold | rfl
    · exact (List.nodup_flatMap.mp h).1 other hold
    · exact hnew
  · refine List.pairwise_iff_getElem.mpr fun i j hi hj hlt => ?_
    have hold := List.pairwise_iff_getElem.mp (List.nodup_flatMap.mp h).2
    rw [List.length_set] at hi hj
    simp only [Function.onFun, List.getElem_set]
    split
    · rename_i hit
      subst hit
      rw [if_neg (Nat.ne_of_lt hlt)]
      exact hapart j _ (Nat.ne_of_gt hlt) (List.getElem?_eq_getElem hj)
    · split
      · rename_i hne hjt
        subst hjt
        exact (hapart i _ (Nat.ne_of_lt hlt) (List.getElem?_eq_getElem hi)).symm
      · exact hold i j hi hj hlt

theorem hands_replicate (h : hand pc = []) (n : Nat) : hands hand (List.replicate n pc) = [] := by
  refine List.flatMap_eq_nil_iff.mpr fun other hother => ?_
  rw [List.eq_of_mem_replicate hother, h]

/-! ## Weights

What a thread owes in its place of the program is a number. -/

variable {weight : β → Nat}

/-- What the threads owe together. -/
def load (weight : β → Nat) (threads : List β) : Nat := (threads.map weight).sum

/-- A thread moves. -/
theorem load_set (weight : β → Nat) (h : threads[t]? = some pc) (pc' : β) :
    load weight (threads.set t pc') + weight pc = load weight threads + weight pc' :=
  sum_map_set weight pc' h

theorem weight_le_load (h : threads[t]? = some pc) : weight pc ≤ load weight threads :=
  List.le_sum_of_mem (List.mem_map_of_mem (List.mem_of_getElem? h))

theorem load_replicate (weight : β → Nat) (h : weight pc = 0) (n : Nat) : load weight (List.replicate n pc) = 0 := by
  simp [load, h]

theorem load_add (weight weight' : β → Nat) (threads : List β) :
    load (fun pc => weight pc + weight' pc) threads = load weight threads + load weight' threads :=
  List.sum_map_add

theorem length_hands (hand : β → List α) (threads : List β) :
    (hands hand threads).length = load (fun pc => (hand pc).length) threads :=
  List.length_flatMap

/-- Each of two lists with what only the other one has comes to all that is in either. -/
theorem length_filter_notMem_add [DecidableEq α] {l l' : List α} (h : l.Nodup) (h' : l'.Nodup) :
    (l.filter (· ∉ l')).length + l'.length = l.length + (l'.filter (· ∉ l)).length := by
  have hperm : (l.filter (· ∉ l') ++ l').Perm (l ++ l'.filter (· ∉ l)) := by
    refine (List.perm_ext_iff_of_nodup ?_ ?_).mpr fun a => ?_
    · refine List.nodup_append.mpr ⟨h.filter _, h', fun a ha b hb heq => ?_⟩
      simp only [List.mem_filter, decide_eq_true_eq] at ha
      exact ha.2 (heq ▸ hb)
    · refine List.nodup_append.mpr ⟨h, h'.filter _, fun a ha b hb heq => ?_⟩
      simp only [List.mem_filter, decide_eq_true_eq] at hb
      exact hb.2 (heq ▸ ha)
    · simp only [List.mem_append, List.mem_filter, decide_eq_true_eq]
      tauto
  simpa using hperm.length_eq

/-- A counter that is short of the items by those that are pending, by what has been taken of it
in vain, and by the claims: the claims cover the items that are not pending where it is right
with the first two. -/
theorem claims_cover_iff [DecidableEq α] {items pending : List α} {size : Int}
    {failing claims : Nat} (hitems : items.Nodup) (hpending : pending.Nodup)
    (hsize : size + pending.length + failing + claims = items.length) :
    (items.filter (· ∉ pending)).length ≤ claims ↔
      size + failing + (pending.filter (· ∉ items)).length ≤ 0 := by
  have hlength := length_filter_notMem_add hitems hpending
  omega

end SessionServer.Foundation
