import HeapStats.FindChildClass
/-!
# PushNewChildClass — appending a child counter

`pushNewChildClass(clsCounter, objData)` allocates a node and its counter, zeroes the counter, and links the node at
the tail of the class counter's child list, walking to the last node under the class counter's spin lock.  The
allocator's answers are the input `Alloc`; a failed allocation returns `NULL` and, once the half-built node is freed,
leaves the memory as it was (`pushNewChildClass_fail`).  A successful call appends exactly the new node
(`pushNewChildClass_append`).
-/
namespace HeapStats

/-- What the allocator answers inside one allocating call: the block `calloc` returned (`0` when it failed), and the
block `posix_memalign` stored for the counter (`none` when it returned nonzero). -/
structure Alloc where
  block : Ptr
  counter : Option Ptr
deriving DecidableEq, Repr

/-- `calloc(1, sizeof(TChildClassCounter))`: every field zero. -/
def TChildClassCounter.zero : TChildClassCounter := ⟨0, 0, 0, 0⟩

/-- The `while` loop of `pushNewChildClass`: from `counter`, the last node of the list. -/
def lastChildClass (h : Region TChildClassCounter) : Nat → Ptr → Option Ptr
  | 0, _ => none
  | fuel + 1, counter =>
    (h.read counter).bind fun n => if n.next = 0 then some counter else lastChildClass h fuel n.next

/-- `pushNewChildClass(clsCounter, objData)`, given the allocator's answers `a`: the memory after the call and the new
node (`0` for `NULL`). -/
def pushNewChildClass (m : Memory) (clsCounter objData : Ptr) (a : Alloc) : Option (Memory × Ptr) :=
  if a.block = 0 then some (m, 0)
  else
    let children := m.children.write a.block TChildClassCounter.zero
    match a.counter with
    | none => some ({ m with children := children.free a.block }, 0)
    | some counter => do
      let counters ← clearObjectCounter (m.counters.write counter TObjectCounter.zero) counter
      let children := children.write a.block { counter, objData, next := 0, callCount := 0 }
      let cls ← m.classes.read clsCounter
      if cls.child = 0 then
        let classes ← m.classes.modify clsCounter fun c => { c with child := a.block }
        return ({ counters, children, classes }, a.block)
      else
        let last ← lastChildClass children children.size cls.child
        let children ← children.modify last fun n => { n with next := a.block }
        return ({ m with counters, children }, a.block)

variable {h : Region TChildClassCounter} {m : Memory} {clsCounter objData c l : Ptr} {cls : TClassCounter}
  {pre xs : List Ptr} {a : Alloc}

theorem lastChildClass_spec (hc : Chain h c (pre ++ [l])) :
    ∀ fuel, pre.length < fuel → lastChildClass h fuel c = some l := by
  induction pre generalizing c with
  | nil =>
    obtain ⟨rfl, -, n, hn, hs⟩ := Seg.cons_iff.1 hc
    rintro (_ | fuel) hf
    · simp at hf
    simp [lastChildClass, hn, Seg.nil_iff.1 hs]
  | cons x pre ih =>
    obtain ⟨rfl, -, n, hn, hs⟩ := Seg.cons_iff.1 hc
    rintro (_ | fuel) hf
    · simp at hf
    simp only [lastChildClass, hn, Option.some_bind, if_neg (Chain.ne_zero hs (by simp))]
    exact ih hs fuel (by simpa using hf)

/-- A failed allocation returns `NULL` and changes nothing. -/
theorem pushNewChildClass_fail (hb : m.children.Fresh a.block) (ha : a.block = 0 ∨ a.counter = none) :
    pushNewChildClass m clsCounter objData a = some (m, 0) := by
  rcases ha with ha | ha
  · simp [pushNewChildClass, ha]
  · simp [pushNewChildClass, hb.1, ha, Region.free_write_of_read_none hb.2]

/-- What a successful `pushNewChildClass` leaves: `m'`, where the child list of `clsCounter` is the old one with
`node` appended, and nothing else changed but the new node's counter and the old tail's `next`. -/
structure PushResult (m : Memory) (clsCounter : Ptr) (cls : TClassCounter) (xs : List Ptr) (objData counter : Ptr)
    (m' : Memory) (node : Ptr) : Prop where
  list : ∃ cls', m'.classes.read clsCounter = some cls' ∧ cls' = { cls with child := cls'.child } ∧
    Chain m'.children cls'.child (xs ++ [node])
  block : m'.children.read node = some { counter, objData, next := 0, callCount := 0 }
  counters : m'.counters = m.counters.write counter TObjectCounter.zero
  classes : ∀ c, c ≠ clsCounter → m'.classes.read c = m.classes.read c
  untouched : ∀ x, x ≠ node → x ∉ xs → m'.children.read x = m.children.read x
  fields : ∀ x, x ≠ node → (m'.children.read x).map (fun c => (c.counter, c.objData, c.callCount)) =
    (m.children.read x).map (fun c => (c.counter, c.objData, c.callCount))

/-- **A successful `pushNewChildClass` appends the new node to the child list.** -/
theorem pushNewChildClass_append {counter : Ptr} (hcls : m.classes.read clsCounter = some cls)
    (hxs : Chain m.children cls.child xs) (hb : m.children.Fresh a.block) (hc : a.counter = some counter) :
    ∃ m', pushNewChildClass m clsCounter objData a = some (m', a.block) ∧
      PushResult m clsCounter cls xs objData counter m' a.block := by
  obtain ⟨hb0, hbr⟩ := hb
  have hbx : ∀ x ∈ xs, x ≠ a.block := fun x hx e => by
    obtain ⟨-, n, hn⟩ := Seg.live hxs hx
    rw [e, hbr] at hn; cases hn
  have hco : clearObjectCounter (m.counters.write counter TObjectCounter.zero) counter =
      some (m.counters.write counter TObjectCounter.zero) := by
    simp [clearObjectCounter, Region.modify, TObjectCounter.zero]
  rcases List.eq_nil_or_concat xs with rfl | ⟨pre, l, rfl⟩
  · refine ⟨{ counters := m.counters.write counter TObjectCounter.zero
              children := m.children.write a.block { counter, objData, next := 0, callCount := 0 }
              classes := m.classes.write clsCounter { cls with child := a.block } },
      by simp [pushNewChildClass, hb0, hc, hco, hcls, Seg.nil_iff.1 hxs, Region.modify], ?_⟩
    exact ⟨⟨_, Region.read_write_self, rfl, .cons hb0 Region.read_write_self (.nil 0)⟩, Region.read_write_self, rfl,
      fun c hc => Region.read_write_of_ne hc, fun x hx _ => Region.read_write_of_ne hx,
      fun x hx => by rw [Region.read_write_of_ne hx]⟩
  rw [List.concat_eq_append] at hxs hbx ⊢
  obtain ⟨q, hpre, hl⟩ := Seg.of_append hxs
  obtain ⟨hql, hl0, nl, hnl, hnl0⟩ := Seg.singleton_iff.1 hl
  subst q
  have hlb : l ≠ a.block := hbx l (by simp)
  have hlpre : l ∉ pre := by have := hxs.nodup; simp [List.nodup_append] at this; exact this.2
  set h1 := m.children.write a.block { counter, objData, next := 0, callCount := 0 }
  have hxs1 : Chain h1 cls.child (pre ++ [l]) := hxs.frame_of_read fun x hx => Region.read_write_of_ne (hbx x hx)
  have hlast := lastChildClass_spec hxs1 h1.size (by have := hxs1.length_le; simp at this; omega)
  have hnl1 : h1.read l = some nl := (Region.read_write_of_ne hlb).trans hnl
  refine ⟨{ m with
            counters := m.counters.write counter TObjectCounter.zero
            children := h1.write l { nl with next := a.block } },
    by simp [pushNewChildClass, hb0, hc, hco, hcls, hxs.ne_zero (by simp), hlast, Region.modify, hnl1, h1], ?_⟩
  refine ⟨⟨cls, hcls, rfl, ?_⟩, (Region.read_write_of_ne (Ne.symm hlb)).trans Region.read_write_self, rfl,
    fun _ _ => rfl, fun x hx hx' => ?_, fun x hx => ?_⟩
  · have hbnew : (h1.write l { nl with next := a.block }).read a.block =
        some { counter, objData, next := 0, callCount := 0 } :=
      (Region.read_write_of_ne (Ne.symm hlb)).trans Region.read_write_self
    have hpre' : Seg (h1.write l { nl with next := a.block }) cls.child pre l := hpre.frame_of_read fun x hx => by
      have : x ≠ l := fun e => hlpre (e ▸ hx)
      rw [Region.read_write_of_ne this, Region.read_write_of_ne (hbx x (by simp [hx]))]
    rw [List.append_assoc]
    exact hpre'.append (.cons hl0 Region.read_write_self (.cons hb0 hbnew (.nil 0)))
  · have : x ≠ l := fun e => hx' (by simp [e])
    rw [Region.read_write_of_ne this, Region.read_write_of_ne hx]
  · by_cases hxl : x = l
    · subst hxl; simp [hnl]
    · rw [Region.read_write_of_ne hxl, Region.read_write_of_ne hx]

/-- **Every `pushNewChildClass`** on a class counter whose child list is a chain, given a block not in use, fails and
changes nothing, or appends. -/
theorem pushNewChildClass_result {m' : Memory} {r : Ptr}
    (hchain : ∀ cls, m.classes.read clsCounter = some cls → ∃ xs, Chain m.children cls.child xs)
    (hb : a.block ≠ 0 → m.children.read a.block = none) (h : pushNewChildClass m clsCounter objData a = some (m', r)) :
    (m' = m ∧ r = 0) ∨ ∃ counter cls xs, a.counter = some counter ∧ m.children.Fresh a.block ∧
      m.classes.read clsCounter = some cls ∧ Chain m.children cls.child xs ∧ r = a.block ∧
      PushResult m clsCounter cls xs objData counter m' a.block := by
  by_cases h0 : a.block = 0
  · simp only [pushNewChildClass, h0, if_true, Option.some.injEq, Prod.mk.injEq] at h
    exact .inl ⟨h.1.symm, h.2.symm⟩
  cases hc : a.counter with
  | none =>
    rw [pushNewChildClass_fail ⟨h0, hb h0⟩ (.inr hc), Option.some.injEq, Prod.mk.injEq] at h
    exact .inl ⟨h.1.symm, h.2.symm⟩
  | some counter =>
    cases hcls : m.classes.read clsCounter with
    | none => simp [pushNewChildClass, h0, hc, hcls, clearObjectCounter, Region.modify] at h
    | some cls =>
      obtain ⟨xs, hxs⟩ := hchain cls hcls
      obtain ⟨m'', hm', hr⟩ := pushNewChildClass_append hcls hxs ⟨h0, hb h0⟩ hc
      obtain ⟨rfl, rfl⟩ := Prod.mk.inj (Option.some.inj (h.symm.trans hm'))
      exact .inr ⟨counter, cls, xs, rfl, ⟨h0, hb h0⟩, rfl, hxs, rfl, hr⟩

end HeapStats
