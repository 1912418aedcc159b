import HeapStats.Operations
/-!
# Ownership — every counter block has one owner

A counter block is owned by the class counter or the child node whose `counter` points to it.  `MemOwned` says that
no two owners share a block, and `Owned` adds that the map binds each class counter under one record: what the
destructor needs to free every block once.  Every call the walker's protocol allows keeps both
(`ContainerOp.run_owned`): the calls that allocate give the new owner a block that was not in use, and the others
never change an owner's `counter`.
-/
namespace HeapStats

/-- The counter block that the class counter (`inl`) or the child node (`inr`) at an address points to, while it is
live. -/
def counterOf (m : Memory) : Ptr ⊕ Ptr → Option Ptr
  | .inl p => (m.classes.read p).map (·.counter)
  | .inr x => (m.children.read x).map (·.counter)

/-- No counter block has two owners, and none lives at `NULL`. -/
structure MemOwned (m : Memory) : Prop where
  null : m.counters.read 0 = none
  unique : ∀ o o' y, counterOf m o = some y → counterOf m o' = some y → o = o'

/-- A container whose counter blocks have one owner each, and whose map binds each class counter under one record. -/
structure Owned (c : TSnapShotContainer) : Prop where
  mem : MemOwned c.mem
  map : ∀ k k' p, c.counterMap.lookup k = some p → c.counterMap.lookup k' = some p → p ≠ 0 → k = k'

variable {m m' : Memory}

/-- An owner's counter is live. -/
theorem counterOf_live (hwf : MemWF m) :
    ∀ {o : Ptr ⊕ Ptr} {y : Ptr}, counterOf m o = some y → (m.counters.read y).isSome
  | .inl p, _, h => by
    obtain ⟨r, hr, rfl⟩ := Option.map_eq_some'.1 h
    exact hwf.counter p r hr
  | .inr x, _, h => by
    obtain ⟨n, hn, rfl⟩ := Option.map_eq_some'.1 h
    exact hwf.nodeCounter x n hn

/-- A class counter that keeps its `counter` keeps the block it owns. -/
theorem counterOf_inl {p y : Ptr}
    (hcls : ∀ r', m'.classes.read p = some r' → ∃ r, m.classes.read p = some r ∧ r'.counter = r.counter)
    (h : counterOf m' (.inl p) = some y) : counterOf m (.inl p) = some y := by
  obtain ⟨r', hr', rfl⟩ := Option.map_eq_some'.1 h
  obtain ⟨r, hr, he⟩ := hcls r' hr'
  simp [counterOf, hr, he]

/-- A child node that keeps its `counter` keeps the block it owns. -/
theorem counterOf_inr {x y : Ptr}
    (hch : ∀ n', m'.children.read x = some n' → ∃ n, m.children.read x = some n ∧ n'.counter = n.counter)
    (h : counterOf m' (.inr x) = some y) : counterOf m (.inr x) = some y := by
  obtain ⟨n', hn', rfl⟩ := Option.map_eq_some'.1 h
  obtain ⟨n, hn, he⟩ := hch n' hn'
  simp [counterOf, hn, he]

/-- Stores that keep the shape keep every owner's counter. -/
theorem counterOf_of_shape (hch : m'.children = m.children)
    (hshape : ∀ p, (m'.classes.read p).map (fun r => (r.counter, r.child)) =
      (m.classes.read p).map (fun r => (r.counter, r.child))) (o : Ptr ⊕ Ptr) : counterOf m' o = counterOf m o := by
  cases o with
  | inl p => simpa [Option.map_map, Function.comp_def] using congrArg (Option.map Prod.fst) (hshape p)
  | inr x => simp [counterOf, hch]

namespace MemOwned

/-- Stores in which every owner keeps its counter keep every block with one owner. -/
theorem of_kept (h : MemOwned m) (hnull : m'.counters.read 0 = none)
    (hkept : ∀ {o y}, counterOf m' o = some y → counterOf m o = some y) : MemOwned m' :=
  ⟨hnull, fun o o' y ho ho' => h.unique o o' y (hkept ho) (hkept ho')⟩

/-- Stores in which one new owner gets a block that was not in use, and every other owner keeps its counter, keep
every block with one owner. -/
theorem of_new (h : MemOwned m) (hwf : MemWF m) (hnull : m'.counters.read 0 = none) {new : Ptr ⊕ Ptr} {y₀ : Ptr}
    (hy₀ : m.counters.read y₀ = none) (hnew : ∀ y, counterOf m' new = some y → y = y₀)
    (hkept : ∀ o y, o ≠ new → counterOf m' o = some y → counterOf m o = some y) : MemOwned m' := by
  -- the new owner's block was not in use, so no other owner points to it
  have hnot : ∀ o, o ≠ new → counterOf m' o ≠ some y₀ := fun o ho h' => by
    have := counterOf_live hwf (hkept o y₀ ho h')
    rw [hy₀] at this; cases this
  refine ⟨hnull, fun o o' y ho ho' => ?_⟩
  by_cases hon : o = new <;> by_cases hon' : o' = new
  · exact hon.trans hon'.symm
  · subst hon; exact absurd (hnew y ho ▸ ho') (hnot o' hon')
  · subst hon'; exact absurd (hnew y ho' ▸ ho) (hnot o hon)
  · exact h.unique o o' y (hkept o y hon ho) (hkept o' y hon' ho')

end MemOwned

/-- A store that keeps the same blocks live keeps `NULL` unused. -/
theorem read_none_of_isSome {α : Type} {r r' : Region α} {p : Ptr} (h : (r'.read p).isSome = (r.read p).isSome)
    (hp : r.read p = none) : r'.read p = none := by
  simpa [hp] using h

/-- A class counter whose record keeps its `counter`, and whose other class counters are untouched. -/
theorem classes_kept {cc : Ptr} {cls : TClassCounter} (hcls : m.classes.read cc = some cls)
    (hlist : ∃ cls', m'.classes.read cc = some cls' ∧ cls'.counter = cls.counter)
    (hother : ∀ q, q ≠ cc → m'.classes.read q = m.classes.read q) :
    ∀ q r', m'.classes.read q = some r' → ∃ r, m.classes.read q = some r ∧ r'.counter = r.counter := fun q r' hr' => by
  by_cases hq : q = cc
  · subst hq
    obtain ⟨cls', hcls', he⟩ := hlist
    obtain rfl := Option.some.inj (hr'.symm.trans hcls')
    exact ⟨cls, hcls, he⟩
  · exact ⟨r', (hother q hq).symm.trans hr', rfl⟩

/-- A child node whose fields, read through `f`, are kept keeps its `counter`. -/
theorem child_kept {β : Type} {f : TChildClassCounter → Ptr × β} (hf : ∀ n, (f n).1 = n.counter) {x : Ptr}
    (h : (m'.children.read x).map f = (m.children.read x).map f) :
    ∀ n', m'.children.read x = some n' → ∃ n, m.children.read x = some n ∧ n'.counter = n.counter := fun n' hn' => by
  rw [hn', eq_comm, Option.map_some', Option.map_eq_some'] at h
  obtain ⟨n, hn, he⟩ := h
  exact ⟨n, hn, by rw [← hf n', ← hf n, he]⟩

namespace Owned

variable {c c' : TSnapShotContainer}

/-- A new container owns nothing. -/
theorem new (collectRefTree : Bool) (BOM : UInt8) (junk : TSnapShotFileHeader) :
    Owned (TSnapShotContainer.new collectRefTree BOM junk) :=
  ⟨⟨rfl, fun o _ _ h => (by cases o <;> cases h)⟩, fun _ _ _ h => (by cases h)⟩

/-- Stores that keep the map, keep `NULL` unused, and keep every owner's counter. -/
theorem of_kept (ho : Owned c) (hmap : c'.counterMap = c.counterMap) (hnull : c'.mem.counters.read 0 = none)
    (hkept : ∀ {o y}, counterOf c'.mem o = some y → counterOf c.mem o = some y) : Owned c' :=
  ⟨ho.mem.of_kept hnull hkept, hmap ▸ ho.map⟩

/-- Stores that keep the map, the same counters live, and the shape. -/
theorem of_shape (ho : Owned c) (hmap : c'.counterMap = c.counterMap)
    (hlive : (c'.mem.counters.read 0).isSome = (c.mem.counters.read 0).isSome) (hch : c'.mem.children = c.mem.children)
    (hshape : ∀ p, (c'.mem.classes.read p).map (fun r => (r.counter, r.child)) =
      (c.mem.classes.read p).map (fun r => (r.counter, r.child))) : Owned c' :=
  ho.of_kept hmap (read_none_of_isSome hlive ho.mem.null) fun h => by rwa [counterOf_of_shape hch hshape] at h

/-- Installing a class counter at a block not in use, with a counter not in use, under one record. -/
theorem install {b counter objData : Ptr} (ho : Owned c) (hwf : WF c) (hb : c.mem.classes.Fresh b)
    (hc : c.mem.counters.Fresh counter) :
    Owned { c with
      counterMap := c.counterMap.insert objData b
      mem := { c.mem with
        counters := c.mem.counters.write counter TObjectCounter.zero
        classes := c.mem.classes.write b { TClassCounter.zero with counter, offsetCount := -1 } } } := by
  -- no record was bound to the block `b`
  have hunb : ∀ k, c.counterMap.lookup k ≠ some b := fun k hk => by
    have := hwf.bound k b hk hb.1
    rw [hb.2] at this; cases this
  refine ⟨@MemOwned.of_new _ _ ho.mem hwf.mem (by rw [Region.read_write_of_ne hc.1.symm]; exact ho.mem.null)
    (.inl b) counter hc.2 (fun y h => ?_) (fun o y hob h => ?_), fun k k' p hk hk' hp => ?_⟩
  · simpa [counterOf] using h.symm
  · cases o with
    | inl q =>
      have hqb : q ≠ b := fun e => hob (e ▸ rfl)
      simpa [counterOf, hqb] using h
    | inr x => exact h
  · by_cases hko : k = objData <;> by_cases hko' : k' = objData
    · exact hko.trans hko'.symm
    · subst hko
      rw [AList.lookup_insert] at hk
      rw [AList.lookup_insert_ne hko', ← hk] at hk'
      exact absurd hk' (hunb k')
    · subst hko'
      rw [AList.lookup_insert] at hk'
      rw [AList.lookup_insert_ne hko, ← hk'] at hk
      exact absurd hk (hunb k)
    · rw [AList.lookup_insert_ne hko] at hk
      rw [AList.lookup_insert_ne hko'] at hk'
      exact ho.map k k' p hk hk' hp

/-- Appending a node at a block not in use, with a counter not in use. -/
theorem push {cc objData counter node : Ptr} {cls : TClassCounter} {xs : List Ptr} {m' : Memory} (ho : Owned c)
    (hwf : MemWF c.mem) (hcls : c.mem.classes.read cc = some cls) (hc : c.mem.counters.Fresh counter)
    (hr : PushResult c.mem cc cls xs objData counter m' node) : Owned { c with mem := m' } := by
  have hkc := classes_kept hcls (let ⟨cls', h1, h2, _⟩ := hr.list; ⟨cls', h1, by rw [h2]⟩) hr.classes
  refine ⟨@MemOwned.of_new _ _ ho.mem hwf (by rw [hr.counters, Region.read_write_of_ne hc.1.symm]; exact ho.mem.null)
    (.inr node) counter hc.2 (fun y h => ?_) (fun o y hon h => ?_), ho.map⟩
  · simpa [counterOf, hr.block] using h.symm
  · cases o with
    | inl q => exact counterOf_inl (hkc q) h
    | inr x => exact counterOf_inr (child_kept (fun _ => rfl) (hr.fields x fun e => hon (e ▸ rfl))) h

/-- A hit reorders one child list and counts a call. -/
theorem hit {cc : Ptr} {cls : TClassCounter} {pre post xs' : List Ptr} {n : Ptr} {m' : Memory} (ho : Owned c)
    (hcls : c.mem.classes.read cc = some cls) (hr : HitResult c.mem cc cls pre n post m' xs') :
    Owned { c with mem := m' } := by
  have hkc := classes_kept hcls (let ⟨cls', h1, _, h2, _⟩ := hr.list; ⟨cls', h1, by rw [h2]⟩) hr.classes
  refine ho.of_kept rfl (by show m'.counters.read 0 = none; rw [hr.counters]; exact ho.mem.null) fun {o y} h => ?_
  cases o with
  | inl q => exact counterOf_inl (hkc q) h
  | inr x => exact counterOf_inr (child_kept (fun _ => rfl) (hr.fields x)) h

end Owned

/-- Every effect keeps every counter block with one owner. -/
theorem Effect.owned {c c' : TSnapShotContainer} (hs : Sound c) (ho : Owned c) : Effect c c' → Owned c'
  | .same => ho
  | .install hb hc => ho.install hs.wf hb hc
  | .push hcls _ _ hc hr => ho.push hs.wf.mem hcls hc hr
  | .hit hcls _ hr => ho.hit hcls hr
  | .store _ hch hshape hlive => ho.of_shape rfl (hlive 0) hch hshape
  | .clear hcl _ => ho.of_shape rfl (hcl.counters.isSome 0) hcl.children hcl.shape
  | .setIsCleared => ⟨ho.mem, ho.map⟩

/-- **Every call the protocol allows keeps every counter block with one owner.** -/
theorem ContainerOp.run_owned {objKlass : Ptr → Ptr} {op : ContainerOp} {c c' : TSnapShotContainer} (hs : Sound c)
    (ho : Owned c) (hok : op.Allowed c) (h : op.run objKlass c = some c') : Owned c' :=
  (ContainerOp.run_effect hs hok h).owned hs ho

end HeapStats
