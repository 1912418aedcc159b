import HeapStats.Destructor
/-!
# Pool — `getInstance`, `releaseInstance` and the stock queue

Containers are recycled through the static `stockQueue` of cleared containers, at most `MAX_STOCK_COUNT` of them
while releases do not overlap (`PoolRace` bounds it when they do).  `getInstance` pops one, or makes a new one when
the queue is empty; `releaseInstance` clears a container and pushes it while the queue has room, and deletes it
otherwise or when the push throws.  It reads the queue's size before it pushes: `releaseCheck` and `releaseFinish` are
the two halves (`releaseInstance_eq`).  `globalFinalize` deletes what the queue holds.  A delete runs the destructor,
which completes on every container of the shape the walker's protocol keeps (`destructor_isSome`).  The queue is a
FIFO: it pops at the front and pushes at the back.  The container objects live on the heap as a region of their own,
and `new` answers with a block the caller passes in.
-/
namespace HeapStats

/-- The static `stockQueue` (`none` while it is `NULL`) and the container objects on the heap. -/
structure Pool where
  stockQueue : Option (List Ptr)
  heap : Region TSnapShotContainer

/-- `MAX_STOCK_COUNT`. -/
def MAX_STOCK_COUNT : Nat := 2

/-- `delete instance` (`inst` here: `instance` is a keyword): the destructor, then the object's `free`; `none` on a
pointer to no live container, or when the destructor is undefined.  The container's blocks go with it. -/
def deleteContainer (heap : Region TSnapShotContainer) (inst : Ptr) : Option (Region TSnapShotContainer) :=
  (heap.read inst).bind fun c => c.destructor.map fun _ => heap.free inst

/-- `globalInitialize()`, given whether `new TSnapShotQueue()` succeeds: the pool, and the result. -/
def globalInitialize (s : Pool) (newOk : Bool) : Pool × Bool :=
  if newOk then ({ s with stockQueue := some [] }, true) else (s, false)

/-- `globalFinalize()`: pop and delete every queued container, front first, then drop the queue. -/
def globalFinalize (s : Pool) : Option Pool :=
  match s.stockQueue with
  | none => some s
  | some q => (q.foldlM deleteContainer s.heap).map fun heap => { stockQueue := none, heap }

/-- `getInstance()`, given the block `new TSnapShotContainer()` takes (`none` when it throws) and the constructor's
inputs: the pool and the container handed out (`0` for `NULL`).  `try_pop` on a `NULL` queue is undefined. -/
def getInstance (s : Pool) (fresh : Option Ptr) (collectRefTree : Bool) (BOM : UInt8) (junk : TSnapShotFileHeader) :
    Option (Pool × Ptr) := do
  let q ← s.stockQueue
  let (s, result) := match q with
    | [] => (s, 0)
    | p :: q => ({ s with stockQueue := some q }, p)
  if result = 0 then
    match fresh with
    | none => return (s, 0)
    | some p => return ({ s with heap := s.heap.write p (TSnapShotContainer.new collectRefTree BOM junk) }, p)
  else return (s, result)

/-- `releaseInstance(instance)`, given whether `stockQueue->push` succeeds. -/
def releaseInstance (s : Pool) (inst : Ptr) (pushOk : Bool) : Option Pool :=
  if inst = 0 then some s
  else do
    let q ← s.stockQueue
    if q.length < MAX_STOCK_COUNT then
      let c ← s.heap.read inst
      let c ← c.clear false
      let heap := s.heap.write inst c
      if pushOk then return { stockQueue := some (q ++ [inst]), heap }
      else (deleteContainer heap inst).map fun heap => { s with heap }
    else (deleteContainer s.heap inst).map fun heap => { s with heap }

/-- `existStockSpace = (stockQueue->size() < MAX_STOCK_COUNT)`: the one read of the shared queue that
`releaseInstance` makes before it pushes; undefined while `stockQueue` is `NULL`. -/
def releaseCheck (s : Pool) : Option Bool := s.stockQueue.map fun q => decide (q.length < MAX_STOCK_COUNT)

/-- The rest of `releaseInstance(instance)`, given the `existStockSpace` the check read and whether
`stockQueue->push` succeeds: clear the container and push it onto the queue as it is by then, or delete it. -/
def releaseFinish (s : Pool) (inst : Ptr) (existStockSpace pushOk : Bool) : Option Pool :=
  if existStockSpace then do
    let c ← s.heap.read inst
    let c ← c.clear false
    let heap := s.heap.write inst c
    if pushOk then
      let q ← s.stockQueue
      return { stockQueue := some (q ++ [inst]), heap }
    else (deleteContainer heap inst).map fun heap => { s with heap }
  else (deleteContainer s.heap inst).map fun heap => { s with heap }

/-! ## What each call does -/

section spec

variable {s : Pool} {heap : Region TSnapShotContainer} {q : List Ptr} {p : Ptr}

theorem deleteContainer_of_read {c : TSnapShotContainer} (hc : heap.read p = some c) (hd : c.destructor.isSome) :
    deleteContainer heap p = some (heap.free p) := by
  obtain ⟨m, hm⟩ := Option.isSome_iff_exists.1 hd
  simp [deleteContainer, hc, hm]

theorem read_free (x : Ptr) : (heap.free p).read x = if x = p then none else heap.read x := by
  split <;> simp_all

/-- Deleting distinct live containers, whose destructors complete, one after another deletes exactly them. -/
theorem foldlM_deleteContainer : ∀ (q : List Ptr) (heap : Region TSnapShotContainer), q.Nodup →
    (∀ p ∈ q, ∃ c, heap.read p = some c ∧ c.destructor.isSome) →
    ∃ heap', q.foldlM deleteContainer heap = some heap' ∧ ∀ x, heap'.read x = if x ∈ q then none else heap.read x
  | [], heap, _, _ => ⟨heap, rfl, fun x => by simp⟩
  | p :: q, heap, hnd, hlive => by
    obtain ⟨hpq, hnd⟩ := List.nodup_cons.1 hnd
    obtain ⟨heap', h', hread⟩ := foldlM_deleteContainer q (heap.free p) hnd fun x hx => by
      rw [Region.read_free_of_ne (by rintro rfl; exact hpq hx)]; exact hlive x (List.mem_cons_of_mem p hx)
    obtain ⟨c, hc, hd⟩ := hlive p (List.mem_cons_self p q)
    refine ⟨heap', by simp [List.foldlM_cons, deleteContainer_of_read hc hd, h'], fun x => ?_⟩
    rw [hread, read_free]
    by_cases hx : x ∈ q
    · simp [hx]
    · by_cases hxp : x = p <;> simp [hx, hxp]

/-- `globalFinalize` deletes every queued container, given distinct live ones whose destructors complete, and drops
the queue. -/
theorem globalFinalize_spec
    (hq : ∀ q, s.stockQueue = some q → q.Nodup ∧ ∀ p ∈ q, ∃ c, s.heap.read p = some c ∧ c.destructor.isSome) :
    ∃ s', globalFinalize s = some s' ∧ s'.stockQueue = none ∧
      ∀ x, s'.heap.read x = if (∃ q, s.stockQueue = some q ∧ x ∈ q) then none else s.heap.read x := by
  cases hsq : s.stockQueue with
  | none => exact ⟨s, by simp [globalFinalize, hsq], hsq, fun x => by simp⟩
  | some q =>
    obtain ⟨heap', h', hread⟩ := foldlM_deleteContainer q s.heap (hq q hsq).1 (hq q hsq).2
    exact ⟨{ stockQueue := none, heap := heap' }, by simp [globalFinalize, hsq, h'], rfl, fun x => by simp [hread]⟩

theorem globalFinalize_stockQueue {s' : Pool} (h : globalFinalize s = some s') : s'.stockQueue = none := by
  unfold globalFinalize at h
  split at h
  · obtain rfl := Option.some.inj h
    assumption
  · obtain ⟨_, -, rfl⟩ := Option.map_eq_some'.1 h
    rfl

/-- `getInstance` takes at most the front of the queue. -/
theorem getInstance_stockQueue {fresh : Option Ptr} {collectRefTree : Bool} {BOM : UInt8} {junk : TSnapShotFileHeader}
    {s' : Pool} {r : Ptr} (h : getInstance s fresh collectRefTree BOM junk = some (s', r)) :
    ∃ q, s.stockQueue = some q ∧ s'.stockQueue = some q.tail := by
  cases hq : s.stockQueue with
  | none => simp [getInstance, hq] at h
  | some q =>
    refine ⟨q, rfl, ?_⟩
    rcases q with _ | ⟨x, q⟩ <;> simp only [getInstance, hq, Option.bind_eq_bind, Option.some_bind] at h <;>
      split_ifs at h <;> rcases fresh with _ | b <;> cases h <;> simp [hq]

/-- `getInstance` on a queue of non-`NULL` containers pops the front one, or makes one when the queue is empty. -/
theorem getInstance_eq {fresh : Option Ptr} {collectRefTree : Bool} {BOM : UInt8} {junk : TSnapShotFileHeader}
    (hq : s.stockQueue = some q) (hq0 : ∀ x ∈ q, x ≠ 0) :
    getInstance s fresh collectRefTree BOM junk = some (match q, fresh with
      | x :: q, _ => ({ s with stockQueue := some q }, x)
      | [], none => (s, 0)
      | [], some p => ({ s with heap := s.heap.write p (TSnapShotContainer.new collectRefTree BOM junk) }, p)) := by
  rcases q with _ | ⟨x, q⟩
  · cases fresh <;> simp [getInstance, hq]
  · simp [getInstance, hq, hq0 x (List.mem_cons_self x q)]

/-- **`releaseInstance` is its check followed by the rest of the call.** -/
theorem releaseInstance_eq (pushOk : Bool) :
    releaseInstance s p pushOk =
      if p = 0 then some s else (releaseCheck s).bind fun e => releaseFinish s p e pushOk := by
  cases hq : s.stockQueue <;> simp [releaseInstance, releaseCheck, releaseFinish, hq]

theorem releaseCheck_eq_some {e : Bool} :
    releaseCheck s = some e ↔ ∃ q, s.stockQueue = some q ∧ decide (q.length < MAX_STOCK_COUNT) = e :=
  Option.map_eq_some'

/-- The rest of a release of a live container whose `clear(false)` gives `c'`, when both destructors complete: a push
when the check found room and the push succeeds (undefined if the queue is `NULL` by then), a delete otherwise. -/
theorem releaseFinish_eq {c c' : TSnapShotContainer} (e pushOk : Bool) (hc : s.heap.read p = some c)
    (hclr : c.clear false = some c') (hd : c.destructor.isSome) (hd' : c'.destructor.isSome) :
    releaseFinish s p e pushOk = if (e && pushOk) = true then
      s.stockQueue.map (fun q => ⟨some (q ++ [p]), s.heap.write p c'⟩) else some { s with heap := s.heap.free p } := by
  cases e <;> cases pushOk <;>
    simp [releaseFinish, hc, hclr, deleteContainer_of_read hc hd, deleteContainer_of_read Region.read_write_self hd']
  cases s.stockQueue <;> rfl

/-- `releaseInstance` of a live container whose `clear(false)` gives `c'`, given that the destructors of both
complete: pooled while the queue has room and the push succeeds, and deleted otherwise. -/
theorem releaseInstance_spec {c c' : TSnapShotContainer} (pushOk : Bool) (hp : p ≠ 0) (hq : s.stockQueue = some q)
    (hc : s.heap.read p = some c) (hclr : c.clear false = some c') (hd : c.destructor.isSome)
    (hd' : c'.destructor.isSome) :
    ∃ s', releaseInstance s p pushOk = some s' ∧
      (q.length < MAX_STOCK_COUNT ∧ pushOk = true → s' = { stockQueue := some (q ++ [p]), heap := s.heap.write p c' }) ∧
      (¬ (q.length < MAX_STOCK_COUNT ∧ pushOk = true) → s'.stockQueue = s.stockQueue ∧
        ∀ x, s'.heap.read x = if x = p then none else s.heap.read x) := by
  have hroom : (decide (q.length < MAX_STOCK_COUNT) && pushOk) = true ↔ q.length < MAX_STOCK_COUNT ∧ pushOk = true := by
    simp
  rw [releaseInstance_eq, if_neg hp, releaseCheck, hq, Option.map_some', Option.some_bind,
    releaseFinish_eq _ pushOk hc hclr hd hd', hq, Option.map_some']
  split_ifs with hpool
  · exact ⟨_, rfl, fun _ => rfl, fun h => absurd (hroom.1 hpool) h⟩
  · exact ⟨_, rfl, fun h => absurd (hroom.2 h) hpool, fun _ => ⟨rfl, read_free⟩⟩

/-- The destructor of every sound container whose counter blocks have one owner each completes. -/
theorem destructor_isSome {c : TSnapShotContainer} (hs : Sound c) (ho : Owned c) : c.destructor.isSome := by
  obtain ⟨m, hm, -⟩ := destructor_spec c hs ho
  simp [hm]

/-- `clear` of a container of the shape its operations keep never fails. -/
theorem clear_ok {c : TSnapShotContainer} (hwf : WF c) (isForce : Bool) : ∃ c', c.clear isForce = some c' := by
  by_cases hrun : isForce = true ∨ c.isCleared = false
  · obtain ⟨mem, hc, -⟩ := clear_run hwf hrun
    exact ⟨_, hc⟩
  · simp only [not_or, Bool.not_eq_true, Bool.not_eq_false] at hrun
    exact ⟨c, clear_of_isCleared hrun.1 hrun.2⟩

end spec

end HeapStats
