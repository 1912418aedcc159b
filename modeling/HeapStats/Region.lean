import Mathlib.Data.List.AList
/-!
# Region — the agent's heap, one struct type at a time

The snapshot structures live in blocks the agent got from `calloc` and `posix_memalign`.  Each struct type gets a
region of its own: a finite map from an address to the block that lives there.  Reading an address where no block
lives is a dereference of a dangling pointer, undefined behaviour, so it gives `none`.  What the allocator answers
is an input of the call that allocates; a run asks of it only what `malloc` promises, that the block is `Fresh`.
-/
namespace HeapStats

/-- A C pointer; `0` is `NULL`. -/
abbrev Ptr := Nat

/-- The live blocks of one struct type, by address. -/
abbrev Region (α : Type) := AList fun _ : Ptr => α

namespace Region

variable {α : Type} {r : Region α} {p q : Ptr} {v : α}

/-- The block at `p`; `none` when no block lives there. -/
def read (r : Region α) (p : Ptr) : Option α := r.lookup p

/-- Store `v` as the block at `p`: a block just handed out by the allocator, or new contents of a live one. -/
def write (r : Region α) (p : Ptr) (v : α) : Region α := r.insert p v

/-- A field store through `p` (read, change, write back); `none` when no block lives at `p`. -/
def modify (r : Region α) (p : Ptr) (f : α → α) : Option (Region α) := (r.read p).map fun v => r.write p (f v)

/-- `free(p)`. -/
def free (r : Region α) (p : Ptr) : Region α := r.erase p

/-- A block the allocator may hand out: not `NULL`, and no block lives there. -/
def Fresh (r : Region α) (p : Ptr) : Prop := p ≠ 0 ∧ r.read p = none

/-- The number of live blocks: no walk along live blocks that never revisits one is longer. -/
def size (r : Region α) : Nat := r.keys.length

@[simp] theorem read_write_self : (r.write p v).read p = some v := AList.lookup_insert r

@[simp] theorem read_write_of_ne (h : q ≠ p) : (r.write p v).read q = r.read q := AList.lookup_insert_ne h

@[simp] theorem write_write {w : α} : (r.write p v).write p w = r.write p w := AList.insert_insert r

theorem read_write : (r.write p v).read q = if q = p then some v else r.read q := by
  split <;> simp_all

/-- The one block of a region that holds one block. -/
theorem eq_of_read_write_empty {w : α} (h : ((∅ : Region α).write p v).read q = some w) : q = p ∧ w = v := by
  by_cases hq : q = p
  · subst hq
    exact ⟨rfl, (Option.some.inj (read_write_self.symm.trans h)).symm⟩
  · rw [read_write_of_ne hq] at h
    cases h

@[simp] theorem read_free_self : (r.free p).read p = none := AList.lookup_erase p r

@[simp] theorem read_free_of_ne (h : q ≠ p) : (r.free p).read q = r.read q := AList.lookup_erase_ne h

/-- Freeing a block forgets the last store into it. -/
@[simp] theorem free_write : (r.write p v).free p = r.free p := AList.ext (List.kerase_cons_eq rfl)

/-- A store of a value that satisfies `P` keeps every live block satisfying `P`. -/
theorem forall_read_write {P : α → Prop} (h : ∀ x w, r.read x = some w → P w) (hv : P v) :
    ∀ x w, (r.write p v).read x = some w → P w := fun x w hw => by
  rw [read_write] at hw
  split_ifs at hw
  · exact Option.some.inj hw ▸ hv
  · exact h x w hw

theorem modify_of_read {f : α → α} (h : r.read p = some v) : r.modify p f = some (r.write p (f v)) := by
  simp [modify, h]

theorem modify_eq_some {f : α → α} {r' : Region α} :
    r.modify p f = some r' ↔ ∃ v, r.read p = some v ∧ r.write p (f v) = r' :=
  Option.map_eq_some'

/-- The block `p` the allocator answers with is fresh when it is not `NULL` and not in use. -/
theorem fresh_of_some (hp : p ≠ 0) (h : r.read p = none) : ∀ b, some p = some b → r.Fresh b :=
  fun _ hb => Option.some.inj hb ▸ ⟨hp, h⟩

/-- A store keeps every live block live. -/
theorem isSome_read_write (h : (r.read q).isSome) : ((r.write p v).read q).isSome := by
  by_cases hq : q = p <;> simp [hq, h]

/-- A field store leaves the same blocks live. -/
theorem isSome_read_modify {f : α → α} {r' : Region α} (h : r.modify p f = some r') (q : Ptr) :
    (r'.read q).isSome = (r.read q).isSome := by
  obtain ⟨v, hv, rfl⟩ := modify_eq_some.1 h
  by_cases hq : q = p <;> simp [hq, hv]

/-- Handing out a fresh block and freeing it again leaves the region as it was. -/
theorem free_write_of_read_none (h : r.read p = none) : (r.write p v).free p = r := by
  have hp : p ∉ r := AList.lookup_eq_none.1 h
  apply AList.ext
  show (r.insert p v).entries.kerase p = r.entries
  rw [AList.insert_entries_of_neg hp]
  exact List.kerase_cons_eq rfl

theorem mem_keys_of_read (h : r.read p = some v) : p ∈ r.keys :=
  AList.mem_keys.1 (AList.lookup_isSome.1 (by rw [show r.lookup p = some v from h]; rfl))

/-- A list of distinct live addresses is no longer than the region. -/
theorem length_le_size {xs : List Ptr} (hn : xs.Nodup) (hl : ∀ x ∈ xs, ∃ v, r.read x = some v) :
    xs.length ≤ r.size :=
  (List.subperm_of_subset hn fun x hx => by
    obtain ⟨v, hv⟩ := hl x hx
    exact mem_keys_of_read hv).length_le

end Region

end HeapStats
