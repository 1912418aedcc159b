import HeapStats.Ownership
import Mathlib.Logic.Relation
/-!
# Counting — what the class counters count

The walker counts every object it visits into the class counter that `findClass` returns for the object's record,
pushing a class counter only after `findClass` missed, and counts only while the container is not cleared
(`CountStep`; `Inc` counts one object, `Inc_eq_addInc`).  The abstract model is a ghost map from a record to what was
counted into it since the last `clear`.  `Counted` relates the container to it: the class counter bound to a record
reads the record's sum, and a record not bound has counted nothing; since every counter block has one owner, no two
records share a counter (`Counted.distinct`).  Each call keeps the relation (`CountStep.counted`), so every run from
a new container does (`counted_of_run`).  The protocol's push-after-miss matters: a push of a record that is bound
already rebinds it to a counter that reads zero (`pushNewClass_twice_loses_count`).
-/
namespace HeapStats

/-- Componentwise sum of two counters, the effect of one `addInc`. -/
def TObjectCounter.add (a b : TObjectCounter) : TObjectCounter :=
  ⟨a.count + b.count, a.total_size + b.total_size⟩

/-- One call of the walker on a container it fills, with what it has counted into each class record since the last
`clear` as a ghost.  It pushes a class only after `findClass` missed it, counts into the class counter `findClass`
returns, and counts only while the container is not cleared. -/
inductive CountStep : TSnapShotContainer × (Ptr → TObjectCounter) → TSnapShotContainer × (Ptr → TObjectCounter) → Prop
  | pushNewClass {c c' : TSnapShotContainer} {counts : Ptr → TObjectCounter} {objData : Ptr} {a : Alloc}
      {insertOk : Bool} {r : Ptr} : c.findClass objData = 0 → a.Fresh c.mem.classes c.mem.counters →
      c.pushNewClass objData a insertOk = some (c', r) → CountStep (c, counts) (c', counts)
  | addInc {c : TSnapShotContainer} {counts : Ptr → TObjectCounter} {objData : Ptr} {cls : TClassCounter}
      {operand : TObjectCounter} {counters : Region TObjectCounter} : c.isCleared = false → c.findClass objData ≠ 0 →
      c.mem.classes.read (c.findClass objData) = some cls → addInc c.mem.counters cls.counter operand = some counters →
      CountStep (c, counts) ({ c with mem := { c.mem with counters } },
        Function.update counts objData ((counts objData).add operand))
  | Inc {c : TSnapShotContainer} {counts : Ptr → TObjectCounter} {objData : Ptr} {cls : TClassCounter}
      {size : BitVec 64} {counters : Region TObjectCounter} : c.isCleared = false → c.findClass objData ≠ 0 →
      c.mem.classes.read (c.findClass objData) = some cls → Inc c.mem.counters cls.counter size = some counters →
      CountStep (c, counts) ({ c with mem := { c.mem with counters } },
        Function.update counts objData ((counts objData).add ⟨1, size⟩))
  | clear {c c' : TSnapShotContainer} {counts : Ptr → TObjectCounter} {isForce : Bool} :
      c.clear isForce = some c' → CountStep (c, counts) (c', fun _ => TObjectCounter.zero)
  | setIsCleared {c : TSnapShotContainer} {counts : Ptr → TObjectCounter} :
      CountStep (c, counts) (c.setIsCleared false, counts)

/-- The container's counters are the ghost sums: a bound record's class counter reads what was counted into it, and
an unbound record has counted nothing.  The container is sound, and each of its counter blocks has one owner. -/
structure Counted (c : TSnapShotContainer) (counts : Ptr → TObjectCounter) : Prop where
  sound : Sound c
  owned : Owned c
  reads : ∀ r, c.findClass r ≠ 0 → ∃ cls, c.mem.classes.read (c.findClass r) = some cls ∧
    c.mem.counters.read cls.counter = some (counts r)
  unbound : ∀ r, c.findClass r = 0 → counts r = TObjectCounter.zero

/-- `Inc` counts one object of `size` bytes. -/
theorem Inc_eq_addInc (counters : Region TObjectCounter) (counter : Ptr) (size : BitVec 64) :
    Inc counters counter size = addInc counters counter ⟨1, size⟩ := rfl

theorem read_addInc {counters counters' : Region TObjectCounter} {p : Ptr} {operand : TObjectCounter}
    (h : addInc counters p operand = some counters') (q : Ptr) :
    counters'.read q = if q = p then (counters.read p).map (·.add operand) else counters.read q := by
  obtain ⟨v, hv, rfl⟩ := Region.modify_eq_some.1 h
  rw [Region.read_write]
  split_ifs with hq
  · simp [hv]; rfl
  · rfl

namespace Counted

variable {c c' : TSnapShotContainer} {counts : Ptr → TObjectCounter}

/-- A new container has counted nothing. -/
theorem new (collectRefTree : Bool) (BOM : UInt8) (junk : TSnapShotFileHeader) :
    Counted (TSnapShotContainer.new collectRefTree BOM junk) fun _ => TObjectCounter.zero :=
  ⟨Sound.new collectRefTree BOM junk, Owned.new collectRefTree BOM junk, fun _ h => absurd rfl h, fun _ _ => rfl⟩

/-- The container after a call the protocol allows is sound, with one owner per counter block. -/
theorem run (hi : Counted c counts) (op : ContainerOp) (hok : op.Allowed c) (h : op.run id c = some c') :
    Sound c' ∧ Owned c' :=
  ⟨ContainerOp.run_sound hi.sound hok h, ContainerOp.run_owned hi.sound hi.owned hok h⟩

/-- Distinct bound records count into distinct blocks. -/
theorem distinct (hi : Counted c counts) {r r' : Ptr} {cls cls' : TClassCounter} (hrr' : r ≠ r')
    (hr : c.findClass r ≠ 0) (hcls : c.mem.classes.read (c.findClass r) = some cls)
    (hcls' : c.mem.classes.read (c.findClass r') = some cls') : cls.counter ≠ cls'.counter := fun e => by
  have he : c.findClass r = c.findClass r' := Sum.inl.inj (hi.owned.mem.unique (.inl (c.findClass r))
    (.inl (c.findClass r')) cls.counter (by simp [counterOf, hcls]) (by simp [counterOf, hcls', e]))
  have hk' := TSnapShotContainer.lookup_findClass (show c.findClass r' ≠ 0 from he ▸ hr)
  rw [← he] at hk'
  exact hrr' (hi.owned.map r r' _ (TSnapShotContainer.lookup_findClass hr) hk' hr)

theorem findClass_install (c : TSnapShotContainer) (objData b : Ptr) (mem : Memory) (x : Ptr) :
    TSnapShotContainer.findClass { c with counterMap := c.counterMap.insert objData b, mem } x =
      if x = objData then b else c.findClass x := by
  unfold TSnapShotContainer.findClass
  split_ifs with hx
  · subst hx; simp
  · simp [AList.lookup_insert_ne hx]

theorem push (hi : Counted c counts) {objData r : Ptr} {a : Alloc} {insertOk : Bool} (hmiss : c.findClass objData = 0)
    (ha : a.Fresh c.mem.classes c.mem.counters) (h : c.pushNewClass objData a insertOk = some (c', r)) :
    Counted c' counts := by
  obtain ⟨hs, ho⟩ := hi.run (.pushNewClass objData a insertOk) ha
    (by simp only [ContainerOp.run, h, Option.map_some']; rfl)
  rcases TSnapShotContainer.pushNewClass_result ha h with rfl | ⟨counter, h0, hc, rfl⟩
  · exact hi
  refine ⟨hs, ho, fun x hx => ?_, fun x hx => ?_⟩ <;> simp only [findClass_install] at hx ⊢
  · split_ifs at hx ⊢ with hxo
    · subst hxo
      exact ⟨_, Region.read_write_self, by rw [hi.unbound _ hmiss]; exact Region.read_write_self⟩
    -- a record bound before keeps its class counter, which is not the new one, and counts into another block
    obtain ⟨cls, hcls, hv⟩ := hi.reads x hx
    have hxb : c.findClass x ≠ a.block := fun e => by rw [e, ha.block h0] at hcls; cases hcls
    have hcc : cls.counter ≠ counter := fun e => by rw [e, (ha.counter counter hc).2] at hv; cases hv
    exact ⟨cls, by rw [Region.read_write_of_ne hxb]; exact hcls, by rw [Region.read_write_of_ne hcc]; exact hv⟩
  · split_ifs at hx with hxo
    · exact absurd hx h0
    · exact hi.unbound x hx

/-- Counting `operand` into the class counter of a bound record counts it into that record alone. -/
theorem count (hi : Counted c counts) {objData : Ptr} {cls : TClassCounter} {operand : TObjectCounter}
    {counters : Region TObjectCounter} (hcl : c.isCleared = false) (hx : c.findClass objData ≠ 0)
    (hcls : c.mem.classes.read (c.findClass objData) = some cls)
    (h : addInc c.mem.counters cls.counter operand = some counters) :
    Counted { c with mem := { c.mem with counters } }
      (Function.update counts objData ((counts objData).add operand)) := by
  obtain ⟨hs, ho⟩ := hi.run (.addInc cls.counter operand) hcl
    (by simp only [ContainerOp.run, h, Option.map_some']; rfl)
  obtain ⟨cls₀, hcls₀, hv⟩ := hi.reads objData hx
  obtain rfl : cls₀ = cls := Option.some.inj (hcls₀.symm.trans hcls)
  refine ⟨hs, ho, fun x hxb => ?_, fun x hx0 => ?_⟩
  · obtain ⟨clsx, hclsx, hvx⟩ := hi.reads x hxb
    refine ⟨clsx, hclsx, ?_⟩
    show counters.read clsx.counter = _
    rw [read_addInc h]
    by_cases hxo : x = objData
    · subst hxo
      obtain rfl := Option.some.inj (hclsx.symm.trans hcls₀)
      simp [hv]
    · rw [if_neg (hi.distinct hxo hxb hclsx hcls₀), Function.update_noteq hxo]
      exact hvx
  · rw [Function.update_noteq fun e : x = objData => hx (e ▸ hx0)]
    exact hi.unbound x hx0

/-- `clear` leaves every class counter of the map at zero: nothing is counted. -/
theorem clear (hi : Counted c counts) {isForce : Bool} (h : c.clear isForce = some c') :
    Counted c' fun _ => TObjectCounter.zero := by
  obtain ⟨hs, ho⟩ := hi.run (.clear isForce) trivial h
  refine ⟨hs, ho, fun x hx => ?_, fun _ _ => rfl⟩
  obtain ⟨r, hr, hz, -⟩ := hs.clean (clear_isCleared h) x _ (TSnapShotContainer.lookup_findClass hx) hx
  exact ⟨r, hr, hz⟩

theorem setIsCleared (hi : Counted c counts) : Counted (c.setIsCleared false) counts :=
  let ⟨hs, ho⟩ := hi.run (.setIsCleared false) rfl rfl
  ⟨hs, ho, hi.reads, hi.unbound⟩

end Counted

/-- **One call of the walker keeps the class counters equal to what was counted.** -/
theorem CountStep.counted {s s' : TSnapShotContainer × (Ptr → TObjectCounter)} (h : CountStep s s')
    (hi : Counted s.1 s.2) : Counted s'.1 s'.2 := by
  cases h with
  | pushNewClass hmiss ha hp => exact hi.push hmiss ha hp
  | addInc hcl hx hcls hadd => exact hi.count hcl hx hcls hadd
  | Inc hcl hx hcls hinc => exact hi.count hcl hx hcls (Inc_eq_addInc .. ▸ hinc)
  | clear hc => exact hi.clear hc
  | setIsCleared => exact hi.setIsCleared

/-- **The class counters count.**  Along every run of the walker from a new container, the class counter bound to a
record reads what was counted into that record since the last `clear`, and a record not bound has counted nothing. -/
theorem counted_of_run (collectRefTree : Bool) (BOM : UInt8) (junk : TSnapShotFileHeader)
    {s : TSnapShotContainer × (Ptr → TObjectCounter)}
    (h : Relation.ReflTransGen CountStep
      (TSnapShotContainer.new collectRefTree BOM junk, fun _ => TObjectCounter.zero) s) :
    Counted s.1 s.2 := by
  induction h with
  | refl => exact Counted.new collectRefTree BOM junk
  | tail _ hstep ih => exact hstep.counted ih

/-- A walker that sets a new container filling, misses record `100`, pushes it and counts one object of 16 bytes
into it has counted `(1, 16)` for the record, and the container agrees. -/
theorem counted_one_object :
    ∃ s, Relation.ReflTransGen CountStep (TSnapShotContainer.new false 0
        ⟨0, 0, 0, 0, 0, 0, fun _ => 0, 0, 0, 0, 0, 0, 0, 0, 0⟩, fun _ => TObjectCounter.zero) s ∧
      Counted s.1 s.2 ∧ s.2 100 = ⟨1, 16⟩ :=
  have h : Relation.ReflTransGen CountStep (TSnapShotContainer.new false 0
      ⟨0, 0, 0, 0, 0, 0, fun _ => 0, 0, 0, 0, 0, 0, 0, 0, 0⟩, fun _ => TObjectCounter.zero) _ :=
    .tail (.tail (.single .setIsCleared) (@CountStep.pushNewClass _ _ _ 100 ⟨1, some 2⟩ true _ rfl
      ⟨fun _ => rfl, fun p hp => by cases hp; exact ⟨by decide, rfl⟩⟩ rfl))
      (@CountStep.Inc _ _ 100 _ 16 _ rfl (by decide) rfl rfl)
  ⟨_, h, counted_of_run false 0 _ h, rfl⟩

end HeapStats
