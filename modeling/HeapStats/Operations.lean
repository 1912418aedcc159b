import HeapStats.Container
/-!
# Operations — the calls a walker makes on a container it owns

The walker fills a container through its methods (`pushNewClass`, `pushNewChildClass`, `findChildClass`, `clear`,
`setIsCleared`) and stores through the pointers they return (`addInc` and `Inc` on a counter, the offsets cache of a
class counter).  `ContainerOp` lists these calls and `ContainerOp.run` runs one; `ContainerOp.Allowed` is the
walker's protocol.  `ContainerOp.run_effect` says once what an allowed call can do (`Effect`), and every invariant
is proved per effect: an allowed call keeps a container `Sound`, of the shape its operations keep and cleared
whenever it says so (`ContainerOp.run_sound`).

The two list operations are proved once, through `Relink`: each turns one child list into another made of the same
nodes and fresh ones, and touches no other list (`Relink.of_push`, `Relink.of_hit`).
-/
namespace HeapStats

/-- What the allocator promises of its answers: a block `calloc` returned is not in use in `blocks`, and a block
`posix_memalign` stored is not in use among the counters. -/
structure Alloc.Fresh {α : Type} (a : Alloc) (blocks : Region α) (counters : Region TObjectCounter) : Prop where
  block : a.block ≠ 0 → blocks.read a.block = none
  counter : ∀ p, a.counter = some p → counters.Fresh p

/-- Both answers of the allocator are fresh when neither block is in use. -/
theorem Alloc.fresh_of_read {α : Type} {blocks : Region α} {counters : Region TObjectCounter} {b k : Ptr}
    (hb : blocks.read b = none) (hk0 : k ≠ 0) (hk : counters.read k = none) :
    (⟨b, some k⟩ : Alloc).Fresh blocks counters :=
  ⟨fun _ => hb, fun _ h => Option.some.inj h ▸ ⟨hk0, hk⟩⟩

/-- A cleared class counter stays cleared under stores that keep its record, keep every zero counter zero, and keep
the nodes of its child list. -/
theorem ClassCleared.frame {m m' : Memory} {p : Ptr} (h : ClassCleared m p)
    (hcls : m'.classes.read p = m.classes.read p)
    (hz : ∀ x, m.counters.read x = some TObjectCounter.zero → m'.counters.read x = some TObjectCounter.zero)
    (hch : ∀ r, m.classes.read p = some r → ∀ xs, Chain m.children r.child xs → ∀ x ∈ xs,
      m'.children.read x = m.children.read x) :
    ClassCleared m' p := by
  obtain ⟨r, hr, hzr, ho, hoc, xs, hxs, hn⟩ := h
  refine ⟨r, hcls.trans hr, hz _ hzr, ho, hoc, xs, hxs.frame_of_read (hch r hr xs hxs), fun x hx => ?_⟩
  obtain ⟨n, hnx, hnz⟩ := hn x hx
  exact ⟨n, (hch r hr xs hxs x hx).trans hnx, hz _ hnz⟩

/-! ## Relinking one child list -/

/-- What `pushNewChildClass` and `findChildClass` do to the memory: the child list `xs` of the class counter `cc`
becomes `ys`, made of nodes of `xs` and fresh ones; the nodes of `xs` keep their counters, a fresh node's counter
reads zero, live counters keep their values, and nothing else changes but `cc`'s list head. -/
structure Relink (m m' : Memory) (cc : Ptr) (xs ys : List Ptr) : Prop where
  list : ∃ cls head, m.classes.read cc = some cls ∧ Chain m.children cls.child xs ∧
    m'.classes.read cc = some { cls with child := head } ∧ Chain m'.children head ys
  fresh : ∀ x ∈ ys, x ∉ xs → m.children.read x = none
  classes : ∀ q, q ≠ cc → m'.classes.read q = m.classes.read q
  untouched : ∀ x, x ∉ xs → x ∉ ys → m'.children.read x = m.children.read x
  kept : ∀ x ∈ xs, ∀ n', m'.children.read x = some n' → ∃ n, m.children.read x = some n ∧ n'.counter = n.counter
  added : ∀ x ∈ ys, x ∉ xs → ∃ n', m'.children.read x = some n' ∧ m'.counters.read n'.counter = some TObjectCounter.zero
  counters : ∀ x, (m.counters.read x).isSome → m'.counters.read x = m.counters.read x

namespace Relink

variable {m m' : Memory} {cc : Ptr} {xs ys : List Ptr}

/-- A node live before the relink that is on the new list was on the old one. -/
theorem mem_old (h : Relink m m' cc xs ys) {x : Ptr} (hy : x ∈ ys) (hlive : (m.children.read x).isSome) : x ∈ xs :=
  by_contra fun hx => by rw [h.fresh x hy hx] at hlive; cases hlive

theorem isSome_counters (h : Relink m m' cc xs ys) {x : Ptr} (hx : (m.counters.read x).isSome) :
    (m'.counters.read x).isSome := by
  rw [h.counters x hx]; exact hx

/-- The child list of every other class counter is untouched. -/
theorem chain_other (h : Relink m m' cc xs ys) (hwf : MemWF m) {q : Ptr} {s : TClassCounter} {zs : List Ptr}
    (hq : q ≠ cc) (hs : m.classes.read q = some s) (hzs : Chain m.children s.child zs) :
    ∀ z ∈ zs, m'.children.read z = m.children.read z ∧ z ∉ xs ∧ z ∉ ys := by
  obtain ⟨cls, -, hcls, hxs, -⟩ := h.list
  intro z hz
  have hzx : z ∉ xs := fun hzx => hwf.disjoint q cc s cls zs xs hq hs hcls hzs hxs hz hzx
  have hzy : z ∉ ys := fun hzy => hzx (h.mem_old hzy (by obtain ⟨-, n, hn⟩ := Seg.live hzs hz; simp [hn]))
  exact ⟨h.untouched z hzx hzy, hzx, hzy⟩

theorem isSome_classes (h : Relink m m' cc xs ys) {q : Ptr} (hq : (m.classes.read q).isSome) :
    (m'.classes.read q).isSome := by
  by_cases hqc : q = cc
  · obtain ⟨cls, head, -, -, hcls', -⟩ := h.list
    rw [hqc, hcls']; rfl
  · rwa [h.classes q hqc]

/-- **Relinking one child list keeps the shape.** -/
theorem memWF (h : Relink m m' cc xs ys) (hwf : MemWF m) : MemWF m' := by
  obtain ⟨cls, head, hcls, -, hcls', hys⟩ := h.list
  have hread : ∀ q r', m'.classes.read q = some r' →
      (q = cc ∧ r' = { cls with child := head }) ∨ (q ≠ cc ∧ m.classes.read q = some r') := fun q r' hr' => by
    by_cases hq : q = cc
    · subst hq; exact .inl ⟨rfl, Option.some.inj (hr'.symm.trans hcls')⟩
    · exact .inr ⟨hq, (h.classes q hq).symm.trans hr'⟩
  -- the list of every other class counter, in `m'`, is its old list, off `ys`
  have hother : ∀ q s zs, q ≠ cc → m.classes.read q = some s → Chain m'.children s.child zs →
      Chain m.children s.child zs ∧ ∀ z ∈ zs, z ∉ ys := fun q s zs hq hs hzs' => by
    obtain ⟨zs₀, hzs⟩ := hwf.chain q s hs
    obtain rfl := Chain.unique (hzs.frame_of_read fun z hz => (h.chain_other hwf hq hs hzs z hz).1) hzs'
    exact ⟨hzs, fun z hz => (h.chain_other hwf hq hs hzs z hz).2.2⟩
  refine ⟨fun q r' hr' => ?_, fun q r' hr' => ?_, fun x n' hn' => ?_, fun p q r' s' xs' zs hpq hr' hs' hxs' hzs => ?_⟩
  · rcases hread q r' hr' with ⟨rfl, rfl⟩ | ⟨-, hr⟩
    · exact h.isSome_counters (hwf.counter _ cls hcls)
    · exact h.isSome_counters (hwf.counter q r' hr)
  · rcases hread q r' hr' with ⟨rfl, rfl⟩ | ⟨hq, hr⟩
    · exact ⟨ys, hys⟩
    · obtain ⟨zs, hzs⟩ := hwf.chain q r' hr
      exact ⟨zs, hzs.frame_of_read fun z hz => (h.chain_other hwf hq hr hzs z hz).1⟩
  · by_cases hx : x ∈ xs
    · obtain ⟨n, hn, hc⟩ := h.kept x hx n' hn'
      rw [hc]; exact h.isSome_counters (hwf.nodeCounter x n hn)
    by_cases hy : x ∈ ys
    · obtain ⟨n'', hn'', hz⟩ := h.added x hy hx
      rw [hn'] at hn''; cases hn''; simp [hz]
    · rw [h.untouched x hx hy] at hn'
      exact h.isSome_counters (hwf.nodeCounter x n' hn')
  rcases hread p r' hr' with ⟨rfl, rfl⟩ | ⟨hp, hr⟩ <;> rcases hread q s' hs' with ⟨rfl, rfl⟩ | ⟨hq, hs⟩
  · exact absurd rfl hpq
  · obtain rfl := hxs'.unique hys
    exact fun z hz hz' => (hother q s' zs hq hs hzs).2 z hz' hz
  · obtain rfl := hzs.unique hys
    exact fun z hz hz' => (hother p r' xs' hp hr hxs').2 z hz hz'
  · exact hwf.disjoint p q r' s' xs' zs hpq hr hs (hother p r' xs' hp hr hxs').1 (hother q s' zs hq hs hzs).1

/-- **Relinking one child list keeps a cleared class counter cleared.** -/
theorem classCleared (h : Relink m m' cc xs ys) (hwf : MemWF m) {p : Ptr} (hp : ClassCleared m p) :
    ClassCleared m' p := by
  have hz : ∀ x, m.counters.read x = some TObjectCounter.zero → m'.counters.read x = some TObjectCounter.zero :=
    fun x hx => (h.counters x (by simp [hx])).trans hx
  by_cases hpc : p = cc
  · subst hpc
    obtain ⟨cls, head, hcls, hxs, hcls', hys⟩ := h.list
    obtain ⟨r, hr, hzr, ho, hoc, zs, hzs, hn⟩ := hp
    obtain rfl : r = cls := Option.some.inj (hr.symm.trans hcls)
    obtain rfl := hzs.unique hxs
    refine ⟨_, hcls', hz _ hzr, ho, hoc, ys, hys, fun x hx => ?_⟩
    by_cases hxo : x ∈ zs
    · obtain ⟨n, hnx, hnz⟩ := hn x hxo
      obtain ⟨n', hn'⟩ := (Seg.live hys hx).2
      obtain ⟨n₀, hn₀, hc⟩ := h.kept x hxo n' hn'
      rw [hnx] at hn₀; cases hn₀
      exact ⟨n', hn', hc ▸ hz _ hnz⟩
    · exact h.added x hx hxo
  · exact hp.frame (h.classes p hpc) hz fun r hr zs hzs z hz => (h.chain_other hwf hpc hr hzs z hz).1

/-- An append is a relink. -/
theorem of_push {cls : TClassCounter} {objData counter node : Ptr} (hcls : m.classes.read cc = some cls)
    (hxs : Chain m.children cls.child xs) (hb : m.children.Fresh node) (hc : m.counters.Fresh counter)
    (hr : PushResult m cc cls xs objData counter m' node) : Relink m m' cc xs (xs ++ [node]) := by
  obtain ⟨cls', hcls', heq, hchain⟩ := hr.list
  have hnode : ∀ x ∈ xs, x ≠ node := fun x hx e => by
    obtain ⟨-, n, hn⟩ := Seg.live hxs hx
    rw [e, hb.2] at hn; cases hn
  refine ⟨⟨cls, cls'.child, hcls, hxs, by rw [← heq]; exact hcls', hchain⟩, fun x hx hxs' => ?_, hr.classes,
    fun x hx hy => hr.untouched x (fun e => hy (by simp [e])) hx, fun x hx n' hn' => ?_, fun x hx hxs' => ?_,
    fun x hx => ?_⟩
  · obtain rfl : x = node := by simpa [hxs'] using hx
    exact hb.2
  · have := hr.fields x (hnode x hx)
    rw [hn'] at this
    obtain ⟨n, hn, he⟩ := Option.map_eq_some'.1 this.symm
    exact ⟨n, hn, (Prod.ext_iff.1 he).1.symm⟩
  · obtain rfl : x = node := by simpa [hxs'] using hx
    exact ⟨_, hr.block, by rw [hr.counters]; exact Region.read_write_self⟩
  · have : x ≠ counter := by rintro rfl; rw [hc.2] at hx; cases hx
    rw [hr.counters, Region.read_write_of_ne this]

/-- A hit is a relink. -/
theorem of_hit {cls : TClassCounter} {pre post xs' : List Ptr} {n : Ptr}
    (hxs : Chain m.children cls.child (pre ++ n :: post)) (hcls : m.classes.read cc = some cls)
    (hr : HitResult m cc cls pre n post m' xs') :
    Relink m m' cc (pre ++ n :: post) xs' := by
  obtain ⟨cls', hcls', hchain, heq, -⟩ := hr.list
  have hmem : ∀ x, x ∈ xs' → x ∈ pre ++ n :: post := fun x => (hr.perm hxs).mem_iff.1
  refine ⟨⟨cls, cls'.child, hcls, hxs, by rw [← heq]; exact hcls', hchain⟩, fun x hx hx' => absurd (hmem x hx) hx',
    hr.classes, fun x hx _ => hr.untouched x hx, fun x _ n' hn' => ?_, fun x hx hx' => absurd (hmem x hx) hx',
    fun x _ => by rw [hr.counters]⟩
  have := hr.fields x
  rw [hn'] at this
  obtain ⟨n, hn, he⟩ := Option.map_eq_some'.1 this.symm
  exact ⟨n, hn, (Prod.ext_iff.1 he).1.symm⟩

end Relink

/-! ## Installing a class counter -/

/-- Writing a zero counter keeps every zero counter zero. -/
theorem read_write_zero {counters : Region TObjectCounter} {x : Ptr} (counter : Ptr)
    (hx : counters.read x = some TObjectCounter.zero) :
    (counters.write counter TObjectCounter.zero).read x = some TObjectCounter.zero := by
  by_cases h : x = counter <;> simp [h, hx]

section install

variable {m : Memory} {b : Ptr}

theorem read_install {counter p : Ptr} {r : TClassCounter}
    (h : (m.classes.write b { TClassCounter.zero with counter, offsetCount := -1 }).read p = some r) :
    (p = b ∧ r = { TClassCounter.zero with counter, offsetCount := -1 }) ∨ (p ≠ b ∧ m.classes.read p = some r) := by
  rw [Region.read_write] at h
  split_ifs at h with hp
  · exact .inl ⟨hp, (Option.some.inj h).symm⟩
  · exact .inr ⟨hp, h⟩

/-- Installing a class counter with an empty child list keeps the shape. -/
theorem MemWF.install (hwf : MemWF m) (counter : Ptr) :
    MemWF { m with counters := m.counters.write counter TObjectCounter.zero
                   classes := m.classes.write b { TClassCounter.zero with counter, offsetCount := -1 } } := by
  refine ⟨fun p r hr => ?_, fun p r hr => ?_, fun x n hn => Region.isSome_read_write (hwf.nodeCounter x n hn),
    fun p q r s xs ys hpq hr hs hxs hys => ?_⟩
  · rcases read_install hr with ⟨-, rfl⟩ | ⟨-, hr⟩
    · simp
    · exact Region.isSome_read_write (hwf.counter p r hr)
  · rcases read_install hr with ⟨-, rfl⟩ | ⟨-, hr⟩
    · exact ⟨[], .nil 0⟩
    · exact hwf.chain p r hr
  rcases read_install hr with ⟨-, rfl⟩ | ⟨-, hr⟩
  · rw [Chain.zero_iff.1 hxs]; exact fun _ h => by cases h
  rcases read_install hs with ⟨-, rfl⟩ | ⟨-, hs⟩
  · rw [Chain.zero_iff.1 hys]; exact fun _ _ h => by cases h
  exact hwf.disjoint p q r s xs ys hpq hr hs hxs hys

end install


namespace TSnapShotContainer

variable {c c' : TSnapShotContainer} {objData : Ptr} {a : Alloc} {insertOk : Bool} {r : Ptr}

/-- **Every `pushNewClass`**, given blocks not in use, fails and changes nothing, or installs a class counter. -/
theorem pushNewClass_result (ha : a.Fresh c.mem.classes c.mem.counters)
    (h : c.pushNewClass objData a insertOk = some (c', r)) :
    c' = c ∨ ∃ counter, a.block ≠ 0 ∧ a.counter = some counter ∧ c' = { c with
      counterMap := c.counterMap.insert objData a.block
      mem := { c.mem with
        counters := c.mem.counters.write counter TObjectCounter.zero
        classes := c.mem.classes.write a.block { TClassCounter.zero with counter, offsetCount := -1 } } } := by
  by_cases h0 : a.block = 0
  · simp only [pushNewClass, h0, if_true, Option.some.injEq, Prod.mk.injEq] at h
    exact .inl h.1.symm
  cases hc : a.counter with
  | none =>
    simp only [pushNewClass, h0, hc, if_false, Region.free_write_of_read_none (ha.block h0), Option.some.injEq,
      Prod.mk.injEq] at h
    exact .inl h.1.symm
  | some counter =>
    by_cases hins : objData ∈ c.counterMap ∨ insertOk = true
    · rw [pushNewClass_ok h0 hc hins] at h
      exact .inr ⟨counter, h0, rfl, (Prod.mk.inj (Option.some.inj h)).1.symm⟩
    · simp [pushNewClass, h0, hc, hins, clearObjectCounter, Region.modify,
        Region.free_write_of_read_none (ha.block h0), Region.free_write_of_read_none (ha.counter counter hc).2] at h
      exact .inl h.1.symm

end TSnapShotContainer


/-! ## The walker's calls -/

/-- What every container that follows the walker's protocol satisfies: the shape its operations keep, and, when it
says it is cleared, every class counter of its map cleared. -/
structure Sound (c : TSnapShotContainer) : Prop where
  wf : WF c
  clean : c.isCleared = true → AllCleared c

/-- A new container is sound: its map is empty and it says it is cleared. -/
theorem Sound.new (collectRefTree : Bool) (BOM : UInt8) (junk : TSnapShotFileHeader) :
    Sound (TSnapShotContainer.new collectRefTree BOM junk) :=
  ⟨⟨⟨fun _ _ h => (by cases h), fun _ _ h => (by cases h), fun _ _ h => (by cases h),
    fun _ _ _ _ _ _ _ h => (by cases h)⟩, fun _ _ h => (by cases h)⟩, fun _ _ _ h => (by cases h)⟩

/-- A call on an owned container: its methods, and the walker's stores through the counters and class counters they
return (the walker is not among the sources). -/
inductive ContainerOp where
  | pushNewClass (objData : Ptr) (a : Alloc) (insertOk : Bool)
  | pushNewChildClass (clsCounter objData : Ptr) (a : Alloc)
  | findChildClass (clsCounter klassOop : Ptr)
  | addInc (counter : Ptr) (operand : TObjectCounter)
  | Inc (counter : Ptr) (size : BitVec 64)
  | setOffsets (clsCounter offsets : Ptr) (offsetCount : Int)
  | clear (isForce : Bool)
  | setIsCleared (flag : Bool)

/-- A store to a class counter's offsets cache keeps its `counter` and list head. -/
theorem shape_write_offsets {classes : Region TClassCounter} {cc : Ptr} {r : TClassCounter}
    (hr : classes.read cc = some r) (offsets : Ptr) (offsetCount : Int) (p : Ptr) :
    ((classes.write cc { r with offsets, offsetCount }).read p).map (fun r => (r.counter, r.child)) =
      (classes.read p).map (fun r => (r.counter, r.child)) := by
  by_cases hpc : p = cc
  · subst hpc; simp [hr]
  · simp [hpc]

namespace ContainerOp

/-- The container after the call; `none` for undefined behaviour. -/
def run (objKlass : Ptr → Ptr) (c : TSnapShotContainer) : ContainerOp → Option TSnapShotContainer
  | pushNewClass objData a insertOk => (c.pushNewClass objData a insertOk).map (·.1)
  | pushNewChildClass clsCounter objData a =>
    (HeapStats.pushNewChildClass c.mem clsCounter objData a).map fun r => { c with mem := r.1 }
  | findChildClass clsCounter klassOop =>
    (HeapStats.findChildClass objKlass c.mem clsCounter klassOop).map fun r => { c with mem := r.1 }
  | addInc counter operand =>
    (HeapStats.addInc c.mem.counters counter operand).map fun counters => { c with mem := { c.mem with counters } }
  | Inc counter size =>
    (HeapStats.Inc c.mem.counters counter size).map fun counters => { c with mem := { c.mem with counters } }
  | setOffsets clsCounter offsets offsetCount =>
    (c.mem.classes.modify clsCounter fun r => { r with offsets, offsetCount }).map fun classes =>
      { c with mem := { c.mem with classes } }
  | clear isForce => c.clear isForce
  | setIsCleared flag => some (c.setIsCleared flag)

/-- The walker's protocol: counters and offsets caches change only while the container is not cleared, and
`setIsCleared` is called with `false` only; the allocator hands out blocks not in use. -/
def Allowed (c : TSnapShotContainer) : ContainerOp → Prop
  | pushNewClass _ a _ => a.Fresh c.mem.classes c.mem.counters
  | pushNewChildClass _ _ a => a.Fresh c.mem.children c.mem.counters
  | findChildClass _ _ => True
  | addInc .. | Inc .. | setOffsets .. => c.isCleared = false
  | clear _ => True
  | setIsCleared flag => flag = false

end ContainerOp


namespace Sound

variable {c c' : TSnapShotContainer}

theorem relink {m' : Memory} {cc : Ptr} {xs ys : List Ptr} (hs : Sound c) (h : Relink c.mem m' cc xs ys) :
    Sound { c with mem := m' } where
  wf := ⟨h.memWF hs.wf.mem, fun k p hk hp => h.isSome_classes (hs.wf.bound k p hk hp)⟩
  clean hc k p hk hp := h.classCleared hs.wf.mem (hs.clean hc k p hk hp)

theorem install {b : Ptr} (hs : Sound c) (hb : c.mem.classes.read b = none) (objData counter : Ptr) :
    Sound { c with
      counterMap := c.counterMap.insert objData b
      mem := { c.mem with
        counters := c.mem.counters.write counter TObjectCounter.zero
        classes := c.mem.classes.write b { TClassCounter.zero with counter, offsetCount := -1 } } } := by
  have hne : ∀ k p, c.counterMap.lookup k = some p → p ≠ 0 → p ≠ b := fun k p hk hp e => by
    have := hs.wf.bound k p hk hp
    rw [e, hb] at this; cases this
  refine ⟨⟨hs.wf.mem.install counter, fun k p hk hp => ?_⟩, fun hc k p hk hp => ?_⟩ <;>
    by_cases hko : k = objData
  · subst hko; rw [AList.lookup_insert] at hk; cases hk; simp
  · rw [AList.lookup_insert_ne hko] at hk
    exact Region.isSome_read_write (hs.wf.bound k p hk hp)
  · subst hko; rw [AList.lookup_insert] at hk; cases hk
    exact ⟨_, Region.read_write_self, by simp, rfl, rfl, [], .nil 0, by simp⟩
  · rw [AList.lookup_insert_ne hko] at hk
    exact (hs.clean hc k p hk hp).frame (Region.read_write_of_ne (hne k p hk hp)) (fun x => read_write_zero counter)
      fun _ _ _ _ _ _ => rfl

/-- Stores through counters and offsets caches of a container that is not cleared, which leave the same blocks
live and the shape as it was. -/
theorem of_shape {m' : Memory} (hs : Sound c) (hcl : c.isCleared = false) (hch : m'.children = c.mem.children)
    (hshape : ∀ p, (m'.classes.read p).map (fun r => (r.counter, r.child)) =
      (c.mem.classes.read p).map (fun r => (r.counter, r.child)))
    (hlive : ∀ x, (c.mem.counters.read x).isSome → (m'.counters.read x).isSome) : Sound { c with mem := m' } where
  wf := ⟨hs.wf.mem.of_shape hch hshape hlive, fun k p hk hp => by
    have := congrArg Option.isSome (hshape p)
    simp only [Option.isSome_map'] at this
    exact this ▸ hs.wf.bound k p hk hp⟩
  clean h := by rw [hcl] at h; cases h

end Sound


/-- What one call can do to a container: nothing; install a class counter at blocks not in use; append a node at
blocks not in use; relink a child list on a hit; store through counters or offsets caches, keeping the shape and the
live blocks, while it is not cleared; clear it; or say it is not cleared. -/
inductive Effect (c : TSnapShotContainer) : TSnapShotContainer → Prop
  | same : Effect c c
  | install {objData b counter : Ptr} : c.mem.classes.Fresh b → c.mem.counters.Fresh counter →
      Effect c { c with
        counterMap := c.counterMap.insert objData b
        mem := { c.mem with
          counters := c.mem.counters.write counter TObjectCounter.zero
          classes := c.mem.classes.write b { TClassCounter.zero with counter, offsetCount := -1 } } }
  | push {cc objData counter node : Ptr} {cls : TClassCounter} {xs : List Ptr} {m' : Memory} :
      c.mem.classes.read cc = some cls → Chain c.mem.children cls.child xs → c.mem.children.Fresh node →
      c.mem.counters.Fresh counter → PushResult c.mem cc cls xs objData counter m' node → Effect c { c with mem := m' }
  | hit {cc n : Ptr} {cls : TClassCounter} {pre post xs' : List Ptr} {m' : Memory} :
      c.mem.classes.read cc = some cls → Chain c.mem.children cls.child (pre ++ n :: post) →
      HitResult c.mem cc cls pre n post m' xs' → Effect c { c with mem := m' }
  | store {m' : Memory} : c.isCleared = false → m'.children = c.mem.children →
      (∀ p, (m'.classes.read p).map (fun r => (r.counter, r.child)) =
        (c.mem.classes.read p).map (fun r => (r.counter, r.child))) →
      (∀ x, (m'.counters.read x).isSome = (c.mem.counters.read x).isSome) → Effect c { c with mem := m' }
  | clear {mem : Memory} : Clears c.mem mem → AllCleared { c with mem, isCleared := true } →
      Effect c { c with mem, isCleared := true }
  | setIsCleared : Effect c (c.setIsCleared false)

/-- **What every call the protocol allows does**, on a sound container. -/
theorem ContainerOp.run_effect {objKlass : Ptr → Ptr} {op : ContainerOp} {c c' : TSnapShotContainer} (hs : Sound c)
    (hok : op.Allowed c) (h : op.run objKlass c = some c') : Effect c c' := by
  cases op with
  | pushNewClass objData a insertOk =>
    obtain ⟨⟨c'', r⟩, hp, rfl⟩ := Option.map_eq_some'.1 h
    rcases TSnapShotContainer.pushNewClass_result hok hp with rfl | ⟨counter, h0, hc, rfl⟩
    · exact .same
    · exact .install ⟨h0, hok.block h0⟩ (hok.counter counter hc)
  | pushNewChildClass cc objData a =>
    obtain ⟨⟨m', r⟩, hp, rfl⟩ := Option.map_eq_some'.1 h
    rcases pushNewChildClass_result (fun cls hcls => hs.wf.mem.chain cc cls hcls) hok.block hp with
      ⟨rfl, -⟩ | ⟨counter, cls, xs, hc, hb, hcls, hxs, -, hr⟩
    · exact .same
    · exact .push hcls hxs hb (hok.counter counter hc) hr
  | findChildClass cc k =>
    obtain ⟨⟨m', r⟩, hp, rfl⟩ := Option.map_eq_some'.1 h
    cases hcls : c.mem.classes.read cc with
    | none => simp [HeapStats.findChildClass, hcls] at hp
    | some cls =>
      obtain ⟨xs, hxs⟩ := hs.wf.mem.chain cc cls hcls
      rcases @findChildClass_result objKlass _ _ k _ _ hcls hxs with
        ⟨-, hmiss⟩ | ⟨pre, n, post, m'', xs', rfl, -, -, -, hhit, hr⟩
      · obtain ⟨rfl, -⟩ := Prod.mk.inj (Option.some.inj (hp.symm.trans hmiss))
        exact .same
      · obtain ⟨rfl, -⟩ := Prod.mk.inj (Option.some.inj (hp.symm.trans hhit))
        exact .hit hcls hxs hr
  | addInc counter operand | Inc counter operand =>
    obtain ⟨counters, hp, rfl⟩ := Option.map_eq_some'.1 h
    exact .store hok rfl (fun _ => rfl) (Region.isSome_read_modify hp)
  | setOffsets cc offsets offsetCount =>
    obtain ⟨classes, hp, rfl⟩ := Option.map_eq_some'.1 h
    obtain ⟨r, hr, rfl⟩ := Region.modify_eq_some.1 hp
    exact .store hok rfl (shape_write_offsets hr offsets offsetCount) fun _ => rfl
  | clear isForce =>
    change c.clear isForce = some c' at h
    by_cases hrun : isForce = true ∨ c.isCleared = false
    · obtain ⟨mem, hc, hcl, hall⟩ := clear_run hs.wf hrun
      obtain rfl := Option.some.inj (h.symm.trans hc)
      exact .clear hcl hall
    · simp only [not_or, Bool.not_eq_true, Bool.not_eq_false] at hrun
      rw [clear_of_isCleared hrun.1 hrun.2] at h
      exact Option.some.inj h ▸ .same
  | setIsCleared flag =>
    obtain rfl := Option.some.inj h
    obtain rfl : flag = false := hok
    exact .setIsCleared

/-- Every effect keeps a container sound. -/
theorem Effect.sound {c c' : TSnapShotContainer} (hs : Sound c) : Effect c c' → Sound c'
  | .same => hs
  | .install hb _ => hs.install hb.2 _ _
  | .push hcls hxs hb hc hr => hs.relink (Relink.of_push hcls hxs hb hc hr)
  | .hit hcls hxs hr => hs.relink (Relink.of_hit hxs hcls hr)
  | .store hcl hch hshape hlive => hs.of_shape hcl hch hshape fun x hx => by rwa [hlive]
  | .clear hcl hall =>
    ⟨⟨hcl.memWF hs.wf.mem, fun k p hk hp => by rw [hcl.isSome_classes]; exact hs.wf.bound k p hk hp⟩, fun _ => hall⟩
  | .setIsCleared => ⟨⟨hs.wf.mem, hs.wf.bound⟩, fun hc => by simp [TSnapShotContainer.setIsCleared] at hc⟩

/-- **Every call the protocol allows keeps a container sound.** -/
theorem ContainerOp.run_sound {objKlass : Ptr → Ptr} {op : ContainerOp} {c c' : TSnapShotContainer} (hs : Sound c)
    (hok : op.Allowed c) (h : op.run objKlass c = some c') : Sound c' :=
  (run_effect hs hok h).sound hs

end HeapStats
