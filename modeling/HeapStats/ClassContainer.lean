import HeapStats.Region
/-!
# ClassContainer — relocating a class in `TClassContainer`

The class container maps a class pointer (`klassOop`) to the class's data.  When the GC moves a class,
`updateClass(oldKlassOop, newKlassOop)` copies the entry with `operator[]`, which binds `NULL` to a pointer it does
not find, and then erases the old pointer.  `findClass_updateClass` says what that leaves for every pair of pointers,
the two equal included: then the erase removes the entry the copy kept, and the class is no longer found
(`updateClass_self_unbinds`).  A GC's moves applied one at a time have the effect of all of them at once
(`applyMoves_parallel`) when no move reads a slot an earlier one wrote.
-/
namespace HeapStats

/-- `TClassContainer`: its `classMap`, from a `klassOop` to the `TObjectData *` of the class. -/
structure TClassContainer where
  classMap : AList fun _ : Ptr => Ptr

namespace TClassContainer

/-- `findClass(klassOop)`: the class data bound to `klassOop`, or `NULL`. -/
def findClass (c : TClassContainer) (klassOop : Ptr) : Ptr := (c.classMap.lookup klassOop).getD 0

/-- `(*classMap)[k]`: the value bound to `k`, after binding `NULL` to `k` when it was unbound. -/
def index (c : TClassContainer) (k : Ptr) : TClassContainer × Ptr :=
  match c.classMap.lookup k with
  | some v => (c, v)
  | none => (⟨c.classMap.insert k 0⟩, 0)

/-- `updateClass(oldKlassOop, newKlassOop)`: `(*classMap)[newKlassOop] = (*classMap)[oldKlassOop]`, whose right
operand is evaluated first, then `unsafe_erase(oldKlassOop)`. -/
def updateClass (c : TClassContainer) (oldKlassOop newKlassOop : Ptr) : TClassContainer :=
  let (c, v) := c.index oldKlassOop
  let (c, _) := c.index newKlassOop
  ⟨(c.classMap.insert newKlassOop v).erase oldKlassOop⟩

theorem findClass_index (c : TClassContainer) (k x : Ptr) : (c.index k).1.findClass x = c.findClass x := by
  unfold index findClass
  cases h : c.classMap.lookup k with
  | some v => rfl
  | none =>
    by_cases hx : x = k
    · subst hx; simp [h]
    · simp [AList.lookup_insert_ne hx]

theorem index_snd (c : TClassContainer) (k : Ptr) : (c.index k).2 = c.findClass k := by
  unfold index findClass
  cases c.classMap.lookup k <;> rfl

/-- **What `updateClass` leaves.**  The old pointer finds nothing; the new one finds what the old one found; every
other pointer finds what it found. -/
theorem findClass_updateClass (c : TClassContainer) (o n x : Ptr) :
    (c.updateClass o n).findClass x = if x = o then 0 else if x = n then c.findClass o else c.findClass x := by
  have h1 := findClass_index c o
  have h2 := findClass_index (c.index o).1 n
  have hv := index_snd c o
  simp only [updateClass]
  split_ifs with hxo hxn
  · subst hxo; simp [findClass]
  · subst hxn; simp [findClass, AList.lookup_erase_ne hxo, hv]
  · rw [← h1 x, ← h2 x]
    simp [findClass, AList.lookup_erase_ne hxo, AList.lookup_insert_ne hxn]

/-- A class the GC did not move: `updateClass(k, k)` with `k` bound to 8192. -/
theorem updateClass_self_unbinds :
    (⟨AList.insert 4096 8192 ∅⟩ : TClassContainer).findClass 4096 = 8192 ∧
      ((⟨AList.insert 4096 8192 ∅⟩ : TClassContainer).updateClass 4096 4096).findClass 4096 = 0 :=
  ⟨rfl, rfl⟩

/-- `updateClass` over the moves of one GC, one after another. -/
def applyMoves (c : TClassContainer) (moves : List (Ptr × Ptr)) : TClassContainer :=
  moves.foldl (fun c mv => c.updateClass mv.1 mv.2) c

theorem applyMoves_concat (c : TClassContainer) (ms : List (Ptr × Ptr)) (mv : Ptr × Ptr) :
    c.applyMoves (ms ++ [mv]) = (c.applyMoves ms).updateClass mv.1 mv.2 := by
  simp [applyMoves]

theorem applyMoves_parallel (c : TClassContainer) (moves : List (Ptr × Ptr))
    (hsrc : (moves.map Prod.fst).Nodup) (hdst : (moves.map Prod.snd).Nodup) (hne : ∀ mv ∈ moves, mv.1 ≠ mv.2)
    (hlater : moves.Pairwise fun a b => a.2 ≠ b.1) :
    (∀ mv ∈ moves, (c.applyMoves moves).findClass mv.2 = c.findClass mv.1) ∧
    (∀ x ∈ moves.map Prod.fst, x ∉ moves.map Prod.snd → (c.applyMoves moves).findClass x = 0) ∧
    (∀ x, x ∉ moves.map Prod.fst → x ∉ moves.map Prod.snd → (c.applyMoves moves).findClass x = c.findClass x) := by
  induction moves using List.reverseRecOn with
  | nil => simp [applyMoves]
  | append_singleton ms mv ih =>
    obtain ⟨o, n⟩ := mv
    simp only [List.map_append, List.map_cons, List.map_nil, List.nodup_append, List.nodup_singleton,
      List.disjoint_singleton, true_and] at hsrc hdst
    rw [List.pairwise_append] at hlater
    have hon : o ≠ n := hne (o, n) (by simp)
    have hno : ∀ mv ∈ ms, mv.2 ≠ o := fun mv hmv => hlater.2.2 mv hmv (o, n) (by simp)
    obtain ⟨ih1, ih2, ih3⟩ := ih hsrc.1 hdst.1 (fun mv hmv => hne mv (by simp [hmv])) hlater.1
    have ho : (c.applyMoves ms).findClass o = c.findClass o :=
      ih3 o hsrc.2 (fun h => by obtain ⟨mv, hmv, rfl⟩ := List.mem_map.1 h; exact hno mv hmv rfl)
    refine ⟨fun mv hmv => ?_, fun x hx hxd => ?_, fun x hxs hxd => ?_⟩ <;>
      simp only [applyMoves_concat, findClass_updateClass]
    · rcases List.mem_append.1 hmv with hmv | hmv
      · have hmn : mv.2 ≠ n := fun e => hdst.2 (e ▸ List.mem_map_of_mem _ hmv)
        rw [if_neg (hno mv hmv), if_neg hmn, ih1 mv hmv]
      · obtain rfl := List.mem_singleton.1 hmv
        rw [if_neg (Ne.symm hon), if_pos rfl, ho]
    · simp only [List.map_append, List.mem_append, List.mem_singleton, List.map_cons, List.map_nil] at hx hxd
      push_neg at hxd
      by_cases hxo : x = o
      · rw [if_pos hxo]
      · rw [if_neg hxo, if_neg hxd.2, ih2 x (hx.resolve_right hxo) hxd.1]
    · simp only [List.map_append, List.mem_append, List.mem_singleton, List.map_cons, List.map_nil] at hxs hxd
      push_neg at hxs hxd
      rw [if_neg hxs.2, if_neg hxd.2, ih3 x hxs.1 hxd.1]

/-- Class 2 moves to 3 and then class 1 into the slot 2 left. -/
theorem applyMoves_into_vacated_slot :
    ((⟨(AList.insert 2 20 (AList.insert 1 10 ∅))⟩ : TClassContainer).applyMoves [(2, 3), (1, 2)]).findClass 3 = 20 ∧
      ((⟨(AList.insert 2 20 (AList.insert 1 10 ∅))⟩ : TClassContainer).applyMoves [(2, 3), (1, 2)]).findClass 2 = 10 ∧
      ((⟨(AList.insert 2 20 (AList.insert 1 10 ∅))⟩ : TClassContainer).applyMoves [(2, 3), (1, 2)]).findClass 1 = 0 :=
  let ⟨h1, h2, _⟩ := applyMoves_parallel ⟨(AList.insert 2 20 (AList.insert 1 10 ∅))⟩ [(2, 3), (1, 2)]
    (by decide) (by decide) (by decide) (by decide)
  ⟨h1 (2, 3) (by simp), h1 (1, 2) (by simp), h2 1 (by simp) (by simp)⟩

end TClassContainer
end HeapStats
