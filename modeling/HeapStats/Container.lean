import HeapStats.PushNewChildClass
import HeapStats.Header
/-!
# Container — `TSnapShotContainer`: the class map, `pushNewClass` and `clear`

A container holds its class map (`counterMap`, from a `TObjectData *` to the `TClassCounter *` that counts it), the
counter blocks behind it, the header, and the `isCleared` flag.  `pushNewClass` installs a fresh class counter with
`counterMap[objData] = cur`, whether or not `objData` is bound already; `clear` walks the map and, for every class
counter, drops the offsets cache and zeroes its counter and the counters of its child list.  A `pushNewClass` on a
record that is bound already rebinds it to the new, zeroed counter, so what was counted into the old one is no
longer found (`pushNewClass_twice_loses_count`).

`WF` is the shape the container's operations keep (each child list a finite chain, the chains of distinct class
counters disjoint, every counter block live); `clear_spec` says what `clear` does on every such container.
-/
namespace HeapStats

/-- `TSnapShotContainer`; `counterMap` maps a `TObjectData *` to a `TClassCounter *`. -/
structure TSnapShotContainer where
  counterMap : AList fun _ : Ptr => Ptr
  mem : Memory
  header : TSnapShotFileHeader
  isCleared : Bool

/-- `calloc(1, sizeof(TClassCounter))`: every field zero. -/
def TClassCounter.zero : TClassCounter := ⟨0, 0, 0, 0⟩

namespace TSnapShotContainer

/-- The constructor.  The magic number follows `conf->CollectRefTree()` (`EXTENDED_REFTREE_SNAPSHOT` or
`EXTENDED_SNAPSHOT`); `BOM` is defined outside the sources; the header fields the constructor does not set keep
whatever `junk` the new object's memory held. -/
def new (collectRefTree : Bool) (BOM : UInt8) (junk : TSnapShotFileHeader) : TSnapShotContainer where
  counterMap := ∅
  mem := ⟨∅, ∅, ∅⟩
  header := { junk with
    magicNumber := if collectRefTree then 0b10000001 else 0b10000000, byteOrderMark := BOM, snapShotTime := 0
    size := 0, gcCause := fun _ => 0 }
  isCleared := true

/-- `findClass(objData)`: the bound class counter, or `NULL`. -/
def findClass (c : TSnapShotContainer) (objData : Ptr) : Ptr := (c.counterMap.lookup objData).getD 0

/-- `pushNewClass(objData)`, given the allocator's answers `a` and whether the map can allocate the entry
(`insertOk`; a key already bound needs none): the container after the call and the new class counter (`0` for
`NULL`). -/
def pushNewClass (c : TSnapShotContainer) (objData : Ptr) (a : Alloc) (insertOk : Bool) :
    Option (TSnapShotContainer × Ptr) :=
  if a.block = 0 then some (c, 0)
  else
    let classes := c.mem.classes.write a.block { TClassCounter.zero with offsetCount := -1 }
    match a.counter with
    | none => some ({ c with mem := { c.mem with classes := classes.free a.block } }, 0)
    | some counter => do
      let classes := classes.write a.block { TClassCounter.zero with counter, offsetCount := -1 }
      let counters ← clearObjectCounter (c.mem.counters.write counter TObjectCounter.zero) counter
      if objData ∈ c.counterMap ∨ insertOk = true then
        return ({ c with
          counterMap := c.counterMap.insert objData a.block, mem := { c.mem with counters, classes } }, a.block)
      else
        return ({ c with mem := { c.mem with counters := counters.free counter, classes := classes.free a.block } }, 0)

/-- `setIsCleared(flag)`. -/
def setIsCleared (c : TSnapShotContainer) (flag : Bool) : TSnapShotContainer := { c with isCleared := flag }

end TSnapShotContainer

/-! ## `clear` -/

/-- The loop of `clearChildClassCounters`: zero the counter of every node from `p` on (the two field stores of the
loop body are `clearObjectCounter`'s). -/
def clearChildLoop (children : Region TChildClassCounter) :
    Nat → Region TObjectCounter → Ptr → Option (Region TObjectCounter)
  | _, counters, 0 => some counters
  | 0, _, _ => none
  | fuel + 1, counters, p => do
    let n ← children.read p
    let counters ← clearObjectCounter counters n.counter
    clearChildLoop children fuel counters n.next

/-- `clearChildClassCounters(counter)`: the counters of the child list, then the class counter's own. -/
def clearChildClassCounters (m : Memory) (counter : Ptr) : Option Memory := do
  let cls ← m.classes.read counter
  let counters ← clearChildLoop m.children m.children.size m.counters cls.child
  let counters ← clearObjectCounter counters cls.counter
  return { m with counters }

/-- The body of `clear`'s loop for the class counter `clsCounter` of one map entry. -/
def clearClassCounter (m : Memory) (clsCounter : Ptr) : Option Memory :=
  if clsCounter = 0 then some m
  else do
    let classes ← m.classes.modify clsCounter fun c => { c with offsets := 0, offsetCount := -1 }
    clearChildClassCounters { m with classes } clsCounter

/-- `clear(isForce)`. -/
def TSnapShotContainer.clear (c : TSnapShotContainer) (isForce : Bool) : Option TSnapShotContainer :=
  if !isForce && c.isCleared then some c
  else (c.counterMap.entries.foldlM (fun m e => clearClassCounter m e.2) c.mem).map fun mem =>
    { c with mem, isCleared := true }

/-! ## The shape of a container -/

/-- The shape of a container's blocks: every class counter has a live counter and a finite child list, every node
has a live counter, and the child lists of distinct class counters are disjoint. -/
structure MemWF (m : Memory) : Prop where
  counter : ∀ p r, m.classes.read p = some r → (m.counters.read r.counter).isSome
  chain : ∀ p r, m.classes.read p = some r → ∃ xs, Chain m.children r.child xs
  nodeCounter : ∀ x n, m.children.read x = some n → (m.counters.read n.counter).isSome
  disjoint : ∀ p q r s xs ys, p ≠ q → m.classes.read p = some r → m.classes.read q = some s →
    Chain m.children r.child xs → Chain m.children s.child ys → xs.Disjoint ys

/-- A container of that shape whose map binds only live class counters. -/
structure WF (c : TSnapShotContainer) : Prop where
  mem : MemWF c.mem
  bound : ∀ k p, c.counterMap.lookup k = some p → p ≠ 0 → (c.mem.classes.read p).isSome

/-- A cleared class counter: its counter and the counter of every node of its child list read zero, and its offsets
cache is dropped. -/
def ClassCleared (m : Memory) (p : Ptr) : Prop :=
  ∃ r, m.classes.read p = some r ∧ m.counters.read r.counter = some TObjectCounter.zero ∧ r.offsets = 0 ∧
    r.offsetCount = -1 ∧ ∃ xs, Chain m.children r.child xs ∧
      ∀ x ∈ xs, ∃ n, m.children.read x = some n ∧ m.counters.read n.counter = some TObjectCounter.zero

/-- Every class counter the map binds is cleared. -/
def AllCleared (c : TSnapShotContainer) : Prop :=
  ∀ k p, c.counterMap.lookup k = some p → p ≠ 0 → ClassCleared c.mem p

/-- `c'` is `c` with some live counters zeroed. -/
def Zeroes (c c' : Region TObjectCounter) : Prop :=
  ∀ x, c'.read x = c.read x ∨ ((c.read x).isSome ∧ c'.read x = some TObjectCounter.zero)

/-- `m'` is `m` with some counters zeroed and some offsets caches dropped: what every step of `clear` does. -/
structure Clears (m m' : Memory) : Prop where
  children : m'.children = m.children
  shape : ∀ p, (m'.classes.read p).map (fun r => (r.counter, r.child)) =
    (m.classes.read p).map (fun r => (r.counter, r.child))
  offsets : ∀ p r', m'.classes.read p = some r' → m.classes.read p = some r' ∨ (r'.offsets = 0 ∧ r'.offsetCount = -1)
  counters : Zeroes m.counters m'.counters

/-- Stores that keep the child nodes, every class counter's counter and list head, and every live counter live keep
the shape. -/
theorem MemWF.of_shape {m m' : Memory} (hwf : MemWF m) (hch : m'.children = m.children)
    (hshape : ∀ p, (m'.classes.read p).map (fun r => (r.counter, r.child)) =
      (m.classes.read p).map (fun r => (r.counter, r.child)))
    (hlive : ∀ x, (m.counters.read x).isSome → (m'.counters.read x).isSome) : MemWF m' := by
  have hcls : ∀ p r', m'.classes.read p = some r' → ∃ r, m.classes.read p = some r ∧ r.counter = r'.counter ∧
      r.child = r'.child := fun p r' hr' => by
    have := hshape p
    rw [hr'] at this
    obtain ⟨r, hr, he⟩ := Option.map_eq_some'.1 this.symm
    exact ⟨r, hr, (Prod.ext_iff.1 he).1, (Prod.ext_iff.1 he).2⟩
  refine ⟨fun p r' hr' => ?_, fun p r' hr' => ?_, fun x n hn => ?_, fun p q r' s' xs ys hpq hr' hs' hxs hys => ?_⟩
  · obtain ⟨r, hr, hc, -⟩ := hcls p r' hr'
    exact hc ▸ hlive _ (hwf.counter p r hr)
  · obtain ⟨r, hr, -, hc⟩ := hcls p r' hr'
    obtain ⟨xs, hxs⟩ := hwf.chain p r hr
    exact ⟨xs, by rw [hch, ← hc]; exact hxs⟩
  · exact hlive _ (hwf.nodeCounter x n (hch ▸ hn))
  · obtain ⟨r, hr, -, hc⟩ := hcls p r' hr'
    obtain ⟨s, hs, -, hc'⟩ := hcls q s' hs'
    rw [hch, ← hc] at hxs
    rw [hch, ← hc'] at hys
    exact hwf.disjoint p q r s xs ys hpq hr hs hxs hys

namespace Zeroes

variable {c c' c'' : Region TObjectCounter}

theorem refl (c : Region TObjectCounter) : Zeroes c c := fun _ => .inl rfl

theorem trans (h1 : Zeroes c c') (h2 : Zeroes c' c'') : Zeroes c c'' := fun x => by
  rcases h2 x with h | ⟨hs, hz⟩
  · rw [h]; exact h1 x
  · rcases h1 x with h' | ⟨hs', -⟩
    · exact .inr ⟨h' ▸ hs, hz⟩
    · exact .inr ⟨hs', hz⟩

theorem isSome (h : Zeroes c c') (x : Ptr) : (c'.read x).isSome = (c.read x).isSome := by
  rcases h x with h | ⟨hs, hz⟩
  · rw [h]
  · rw [hz, hs]; rfl

theorem zero (h : Zeroes c c') {x : Ptr} (hx : c.read x = some TObjectCounter.zero) :
    c'.read x = some TObjectCounter.zero := by
  rcases h x with h | ⟨-, hz⟩ <;> simp_all

/-- `clearObjectCounter` on a live counter zeroes just that counter. -/
theorem clearObjectCounter {x : Ptr} (hx : (c.read x).isSome) :
    ∃ c', HeapStats.clearObjectCounter c x = some c' ∧ Zeroes c c' ∧ c'.read x = some TObjectCounter.zero := by
  obtain ⟨o, ho⟩ := Option.isSome_iff_exists.1 hx
  refine ⟨_, Region.modify_of_read ho, fun y => ?_, Region.read_write_self⟩
  by_cases hy : y = x
  · subst hy; exact .inr ⟨by simp [ho], Region.read_write_self⟩
  · exact .inl (Region.read_write_of_ne hy)

end Zeroes

namespace Clears

variable {m m' m'' : Memory}

theorem refl (m : Memory) : Clears m m := ⟨rfl, fun _ => rfl, fun _ _ h => .inl h, Zeroes.refl _⟩

theorem trans (h1 : Clears m m') (h2 : Clears m' m'') : Clears m m'' where
  children := h2.children.trans h1.children
  shape p := (h2.shape p).trans (h1.shape p)
  offsets p r h := (h2.offsets p r h).elim (h1.offsets p r) .inr
  counters := h1.counters.trans h2.counters

theorem isSome_classes (h : Clears m m') (p : Ptr) : (m'.classes.read p).isSome = (m.classes.read p).isSome := by
  simpa only [Option.isSome_map'] using congrArg Option.isSome (h.shape p)

/-- Zeroing and dropping caches keeps the shape of the blocks. -/
theorem memWF (h : Clears m m') (hwf : MemWF m) : MemWF m' :=
  hwf.of_shape h.children h.shape fun x hx => by rw [h.counters.isSome]; exact hx

/-- A cleared class counter stays cleared. -/
theorem classCleared (h : Clears m m') {p : Ptr} (hp : ClassCleared m p) : ClassCleared m' p := by
  obtain ⟨r, hr, hz, ho, hoc, xs, hxs, hn⟩ := hp
  have := h.shape p
  rw [hr] at this
  obtain ⟨r', hr', he⟩ := Option.map_eq_some'.1 this
  simp only [Prod.mk.injEq] at he
  obtain ⟨hc, hch⟩ := he
  have hoff : r'.offsets = 0 ∧ r'.offsetCount = -1 :=
    (h.offsets p r' hr').elim (fun e => by rw [hr] at e; cases e; exact ⟨ho, hoc⟩) id
  refine ⟨r', hr', by rw [hc]; exact h.counters.zero hz, hoff.1, hoff.2, xs, by rw [h.children, hch]; exact hxs,
    fun x hx => ?_⟩
  obtain ⟨n, hnx, hnz⟩ := hn x hx
  exact ⟨n, h.children ▸ hnx, h.counters.zero hnz⟩

end Clears

/-! ## What `clear` does -/

section clear

variable {m : Memory} {p : Ptr} {r : TClassCounter}

theorem clearChildLoop_spec {children : Region TChildClassCounter} {xs : List Ptr} {p : Ptr}
    (hxs : Chain children p xs) : ∀ fuel (counters : Region TObjectCounter), xs.length ≤ fuel →
      (∀ x ∈ xs, ∀ n, children.read x = some n → (counters.read n.counter).isSome) →
      ∃ counters', clearChildLoop children fuel counters p = some counters' ∧ Zeroes counters counters' ∧
        ∀ x ∈ xs, ∃ n, children.read x = some n ∧ counters'.read n.counter = some TObjectCounter.zero := by
  induction xs generalizing p with
  | nil =>
    obtain rfl := Seg.nil_iff.1 hxs
    intro fuel counters _ _
    exact ⟨counters, by cases fuel <;> rfl, Zeroes.refl _, by simp⟩
  | cons x xs ih =>
    obtain ⟨rfl, hx0, n, hn, hs⟩ := Seg.cons_iff.1 hxs
    rintro (_ | fuel) counters hf hlive
    · simp at hf
    obtain ⟨c1, hc1, hz1, hn1⟩ := Zeroes.clearObjectCounter (hlive p (List.mem_cons_self p xs) n hn)
    obtain ⟨c2, hc2, hz2, hxs2⟩ := ih hs fuel c1 (by simpa using hf) fun y hy n' hn' => by
      rw [hz1.isSome]; exact hlive y (List.mem_cons_of_mem p hy) n' hn'
    refine ⟨c2, ?_, hz1.trans hz2, fun y hy => ?_⟩
    · simp [clearChildLoop, hx0, hn, hc1, hc2]
    · rcases List.mem_cons.1 hy with rfl | hy
      · exact ⟨n, hn, hz2.zero hn1⟩
      · exact hxs2 y hy

theorem clearChildClassCounters_spec (hwf : MemWF m) (hr : m.classes.read p = some r) :
    ∃ m', clearChildClassCounters m p = some m' ∧ Clears m m' ∧ m'.classes = m.classes ∧
      m'.counters.read r.counter = some TObjectCounter.zero ∧ ∀ xs, Chain m.children r.child xs →
        ∀ x ∈ xs, ∃ n, m.children.read x = some n ∧ m'.counters.read n.counter = some TObjectCounter.zero := by
  obtain ⟨xs, hxs⟩ := hwf.chain p r hr
  obtain ⟨c1, hc1, hz1, hxs1⟩ := clearChildLoop_spec hxs m.children.size m.counters hxs.length_le
    fun x _ n hn => hwf.nodeCounter x n hn
  obtain ⟨c2, hc2, hz2, hr2⟩ := Zeroes.clearObjectCounter (by rw [hz1.isSome]; exact hwf.counter p r hr)
  refine ⟨{ m with counters := c2 }, by simp [clearChildClassCounters, hr, hc1, hc2],
    ⟨rfl, fun _ => rfl, fun _ _ h => .inl h, hz1.trans hz2⟩, rfl, hr2, fun ys hys x hx => ?_⟩
  obtain rfl := Chain.unique hys hxs
  obtain ⟨n, hn, hz⟩ := hxs1 x hx
  exact ⟨n, hn, hz2.zero hz⟩

/-- One step of `clear`'s loop clears its class counter. -/
theorem clearClassCounter_spec (hwf : MemWF m) (hr : m.classes.read p = some r) (hp : p ≠ 0) :
    ∃ m', clearClassCounter m p = some m' ∧ Clears m m' ∧ ClassCleared m' p := by
  set m1 : Memory := { m with classes := m.classes.write p { r with offsets := 0, offsetCount := -1 } }
  have h1 : Clears m m1 := by
    refine ⟨rfl, fun q => ?_, fun q r' hq => ?_, Zeroes.refl _⟩
    · by_cases hq : q = p
      · subst hq; simp [m1, hr]
      · simp [m1, hq]
    · by_cases hqp : q = p
      · subst hqp; simp only [m1, Region.read_write_self, Option.some.injEq] at hq; exact .inr ⟨hq ▸ rfl, hq ▸ rfl⟩
      · simp only [m1, Region.read_write_of_ne hqp] at hq; exact .inl hq
  have hr1 : m1.classes.read p = some { r with offsets := 0, offsetCount := -1 } := Region.read_write_self
  obtain ⟨m', hm', h2, hcls, hz, hnodes⟩ := clearChildClassCounters_spec (h1.memWF hwf) hr1
  obtain ⟨xs, hxs⟩ := hwf.chain p r hr
  refine ⟨m', by simp [clearClassCounter, hp, Region.modify, hr, hm'], h1.trans h2, _, hcls ▸ hr1, hz, rfl, rfl, xs,
    by rw [h2.children]; exact hxs, fun x hx => ?_⟩
  obtain ⟨n, hn, hnz⟩ := hnodes xs hxs x hx
  exact ⟨n, h2.children ▸ hn, hnz⟩

theorem foldlM_clearClassCounter (L : List (Σ _ : Ptr, Ptr)) : ∀ m, MemWF m →
    (∀ e ∈ L, e.2 ≠ 0 → (m.classes.read e.2).isSome) →
    ∃ m', L.foldlM (fun m e => clearClassCounter m e.2) m = some m' ∧ Clears m m' ∧
      ∀ e ∈ L, e.2 ≠ 0 → ClassCleared m' e.2 := by
  induction L with
  | nil => exact fun m _ _ => ⟨m, rfl, Clears.refl m, by simp⟩
  | cons e L ih =>
    intro m hwf hlive
    obtain ⟨m1, hm1, h1, hcl1⟩ : ∃ m1, clearClassCounter m e.2 = some m1 ∧ Clears m m1 ∧
        (e.2 ≠ 0 → ClassCleared m1 e.2) := by
      by_cases he : e.2 = 0
      · exact ⟨m, by simp [clearClassCounter, he], Clears.refl m, fun h => absurd he h⟩
      · obtain ⟨r, hr⟩ := Option.isSome_iff_exists.1 (hlive e (List.mem_cons_self e L) he)
        obtain ⟨m1, hm1, h1, hcl⟩ := clearClassCounter_spec hwf hr he
        exact ⟨m1, hm1, h1, fun _ => hcl⟩
    obtain ⟨m', hm', h2, hcl⟩ := ih m1 (h1.memWF hwf) fun e' he' hne => by
      rw [h1.isSome_classes]; exact hlive e' (List.mem_cons_of_mem e he') hne
    refine ⟨m', by simp [List.foldlM_cons, hm1, hm'], h1.trans h2, fun e' he' hne => ?_⟩
    rcases List.mem_cons.1 he' with rfl | he'
    · exact h2.classCleared (hcl1 hne)
    · exact hcl e' he' hne

end clear

/-- A non-forced `clear` of a cleared container returns at once. -/
theorem clear_of_isCleared {c : TSnapShotContainer} {isForce : Bool} (hf : isForce = false) (hc : c.isCleared = true) :
    c.clear isForce = some c := by
  simp [TSnapShotContainer.clear, hf, hc]

/-- A forced `clear`, or one of a container that is not cleared, clears every class counter of the map. -/
theorem clear_run {c : TSnapShotContainer} (hwf : WF c) {isForce : Bool} (hrun : isForce = true ∨ c.isCleared = false) :
    ∃ mem, c.clear isForce = some { c with mem, isCleared := true } ∧ Clears c.mem mem ∧
      AllCleared { c with mem, isCleared := true } := by
  have hlive : ∀ e ∈ c.counterMap.entries, e.2 ≠ 0 → (c.mem.classes.read e.2).isSome := fun e he hne =>
    hwf.bound e.1 e.2 (AList.mem_lookup_iff.2 he) hne
  obtain ⟨m', hm', hcl, hcleared⟩ := foldlM_clearClassCounter c.counterMap.entries c.mem hwf.mem hlive
  have hgo : (!isForce && c.isCleared) = false := by rcases hrun with rfl | h <;> simp [*]
  exact ⟨m', by simp [TSnapShotContainer.clear, hgo, hm'], hcl,
    fun k p hk hp => hcleared ⟨k, p⟩ (AList.mem_lookup_iff.1 hk) hp⟩

/-- `clear` always leaves the container cleared. -/
theorem clear_isCleared {c c' : TSnapShotContainer} {isForce : Bool} (h : c.clear isForce = some c') :
    c'.isCleared = true := by
  unfold TSnapShotContainer.clear at h
  split_ifs at h with hc
  · obtain rfl := Option.some.inj h
    exact (by simpa using hc : isForce = false ∧ c.isCleared = true).2
  · obtain ⟨mem, -, rfl⟩ := Option.map_eq_some'.1 h
    rfl

/-- **`clear` resets every counter and keeps the shape.**  On every container of the shape its operations keep, with
`isForce` or not yet cleared, `clear` leaves every class counter of the map and every node of its child list at zero,
every offsets cache dropped, and `isCleared` set, while the map, the child nodes (their order, `objData` and
`callCount`), and each class counter's counter and list head stay as they were; a non-forced `clear` of a cleared
container changes nothing. -/
theorem clear_spec (c : TSnapShotContainer) (hwf : WF c) (isForce : Bool) :
    (isForce = false → c.isCleared = true → c.clear isForce = some c) ∧
    (isForce = true ∨ c.isCleared = false → ∃ c', c.clear isForce = some c' ∧ c'.isCleared = true ∧ AllCleared c' ∧
      c'.counterMap = c.counterMap ∧ c'.header = c.header ∧ c'.mem.children = c.mem.children ∧
      (∀ p, (c'.mem.classes.read p).map (fun r => (r.counter, r.child)) =
        (c.mem.classes.read p).map (fun r => (r.counter, r.child))) ∧
      Zeroes c.mem.counters c'.mem.counters) := by
  refine ⟨clear_of_isCleared, fun hrun => ?_⟩
  obtain ⟨mem, hc, hcl, hall⟩ := clear_run hwf hrun
  exact ⟨_, hc, rfl, hall, rfl, rfl, hcl.children, hcl.shape, hcl.counters⟩

/-- A container that counted one object of class `100` (16 bytes) into class counter `7`, one of its child class
(24 bytes) into the node `20`, and cached the offsets of the class: a forced `clear` zeroes both counters, drops the
cache and keeps the node. -/
theorem clear_counted_class :
    ∃ (c c' : TSnapShotContainer) (cls : TClassCounter), c.counterMap.lookup 100 = some 7 ∧
      c.mem.classes.read 7 = some cls ∧
      c.mem.counters.read cls.counter = some ⟨1, 16⟩ ∧ cls.offsets ≠ 0 ∧ Chain c.mem.children cls.child [20] ∧
      (∃ n, c.mem.children.read 20 = some n ∧ c.mem.counters.read n.counter = some ⟨1, 24⟩) ∧
      c.clear true = some c' ∧ c'.isCleared = true ∧ ClassCleared c'.mem 7 ∧ c'.mem.children = c.mem.children := by
  have hwf : WF ⟨(∅ : AList fun _ : Ptr => Ptr).insert 100 7,
      ⟨((∅ : Region TObjectCounter).write 10 ⟨1, 16⟩).write 21 ⟨1, 24⟩,
        (∅ : Region TChildClassCounter).write 20 ⟨21, 200, 0, 3⟩, (∅ : Region TClassCounter).write 7 ⟨10, 20, 55, 4⟩⟩,
      ⟨0x80, 0, 0, 0, 0, 0, fun _ => 0, 0, 0, 0, 0, 0, 0, 0, 0⟩, false⟩ := by
    refine ⟨⟨fun p r hr => ?_, fun p r hr => ?_, fun x n hn => ?_, fun p q r s _ _ hpq hr hs _ _ => ?_⟩,
      fun k p hk _ => ?_⟩
    · obtain ⟨rfl, rfl⟩ := Region.eq_of_read_write_empty hr
      rfl
    · obtain ⟨rfl, rfl⟩ := Region.eq_of_read_write_empty hr
      exact ⟨[20], .cons (by decide) rfl (.nil 0)⟩
    · obtain ⟨rfl, rfl⟩ := Region.eq_of_read_write_empty hn
      rfl
    · obtain ⟨rfl, -⟩ := Region.eq_of_read_write_empty hr
      obtain ⟨rfl, -⟩ := Region.eq_of_read_write_empty hs
      exact absurd rfl hpq
    · by_cases hk' : k = 100
      · subst hk'
        obtain rfl := Option.some.inj ((AList.lookup_insert _).symm.trans hk)
        rfl
      · rw [AList.lookup_insert_ne hk'] at hk
        cases hk
  obtain ⟨c', hc', hcl, hall, hmap, -, hch, -⟩ := (clear_spec _ hwf true).2 (.inl rfl)
  refine ⟨_, c', ⟨10, 20, 55, 4⟩, ?_, ?_, ?_, by decide, ?_, ?_, hc', hcl, hall 100 7 ?_ (by decide), hch⟩
  · rfl
  · rfl
  · rfl
  · exact .cons (by decide) rfl (.nil 0)
  · exact ⟨_, rfl, rfl⟩
  · rw [hmap]
    rfl

/-! ## `pushNewClass` on a bound record -/

namespace TSnapShotContainer

variable {c : TSnapShotContainer} {objData counter : Ptr} {a : Alloc} {insertOk : Bool}

/-- A record that `findClass` finds is bound in the map to what it returns. -/
theorem lookup_findClass (h : c.findClass objData ≠ 0) : c.counterMap.lookup objData = some (c.findClass objData) := by
  unfold findClass at *
  cases hl : c.counterMap.lookup objData <;> simp_all

/-- A successful `pushNewClass` binds `objData` to the new class counter, whose counter reads zero. -/
theorem pushNewClass_ok (hb0 : a.block ≠ 0) (hc : a.counter = some counter)
    (hins : objData ∈ c.counterMap ∨ insertOk = true) :
    c.pushNewClass objData a insertOk = some ({ c with
      counterMap := c.counterMap.insert objData a.block
      mem := { c.mem with
        counters := c.mem.counters.write counter TObjectCounter.zero
        classes := c.mem.classes.write a.block { TClassCounter.zero with counter, offsetCount := -1 } } },
      a.block) := by
  simp [pushNewClass, hb0, hc, hins, clearObjectCounter, Region.modify, TObjectCounter.zero]

end TSnapShotContainer

/-- Two walkers both miss record `100` and both push it; the first counts one object of 16 bytes into the counter it
got, and the second push rebinds the record to a counter that reads zero. -/
theorem pushNewClass_twice_loses_count (collectRefTree : Bool) (BOM : UInt8) (junk : TSnapShotFileHeader) :
    ∃ c1 counters c2, (TSnapShotContainer.new collectRefTree BOM junk).findClass 100 = 0 ∧
      (TSnapShotContainer.new collectRefTree BOM junk).pushNewClass 100 ⟨1, some 2⟩ true = some (c1, 1) ∧
      addInc c1.mem.counters 2 ⟨1, 16⟩ = some counters ∧
      { c1 with mem := { c1.mem with counters } }.pushNewClass 100 ⟨3, some 4⟩ true = some (c2, 3) ∧
      c2.findClass 100 = 3 ∧ c2.mem.counters.read 2 = some ⟨1, 16⟩ ∧
      (c2.mem.classes.read 3).bind (fun r => c2.mem.counters.read r.counter) = some TObjectCounter.zero :=
  ⟨_, _, _, rfl, rfl, rfl, rfl, rfl, rfl, rfl⟩

end HeapStats
