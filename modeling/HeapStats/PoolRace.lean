import HeapStats.PoolRun
/-!
# PoolRace — releases that overlap

`getInstance` and `releaseInstance` are static and run on many threads, which is why `stockQueue` is a concurrent
queue: each of its operations is atomic.  `releaseInstance` reads `stockQueue->size()` and pushes later, so another
call can push in between.  The model splits it at that read, into `releaseCheck` and `releaseFinish`
(`releaseInstance_eq`).  The rest of every call is one queue operation or touches only the caller's container, so one
step per half, and one per other call, gives every interleaving.  A `RaceWorld` adds the releases in flight, each
with the `existStockSpace` it read; `RaceStep k` lets at most `k` of them overlap.

Every such interleaving keeps `RaceInv` (`RaceReachable.raceInv`): no container has two owners or sits in the queue
while a client owns it, the queued ones are cleared, and every release in flight can finish (`race_single_owner`).
The queue's bound is not `MAX_STOCK_COUNT` but `MAX_STOCK_COUNT + k - 1` (`release_overlap_bound`), and two
overlapping releases reach it (`two_releases_overflow`).  A sequential run is an interleaving with one release at a
time (`Reachable.race`), where the bound is `MAX_STOCK_COUNT` again.
-/
namespace HeapStats

/-- The pool, the containers its clients hold, and the `releaseInstance` calls that have read the queue's size and
not yet returned, each with its instance and the `existStockSpace` it read. -/
structure RaceWorld where
  pool : Pool
  held : List Ptr
  releasing : List (Ptr × Bool)

namespace RaceWorld

/-- The containers the clients own: those they hold and those their releases in flight still hold. -/
def owners (w : RaceWorld) : List Ptr := w.held ++ w.releasing.map Prod.fst

/-- The releases in flight that found room in the queue. -/
def pushing (w : RaceWorld) : Nat := w.releasing.countP (·.2)

end RaceWorld

variable (objKlass : Ptr → Ptr) (k : Nat)

/-- One step of an interleaving in which at most `k` releases overlap: a whole call, as in `Step`, or one half of a
release. -/
inductive RaceStep : RaceWorld → RaceWorld → Prop
  | globalInitialize (w : RaceWorld) (newOk : Bool) :
      RaceStep w { w with pool := (HeapStats.globalInitialize w.pool newOk).1 }
  | globalFinalize {w : RaceWorld} {pool : Pool} : HeapStats.globalFinalize w.pool = some pool →
      RaceStep w { w with pool }
  | getInstance {w : RaceWorld} {pool : Pool} {p : Ptr} {fresh : Option Ptr} {collectRefTree : Bool} {BOM : UInt8}
      {junk : TSnapShotFileHeader} : (∀ b, fresh = some b → w.pool.heap.Fresh b) →
      HeapStats.getInstance w.pool fresh collectRefTree BOM junk = some (pool, p) →
      RaceStep w ⟨pool, if p = 0 then w.held else p :: w.held, w.releasing⟩
  | releaseCheck {w : RaceWorld} {p : Ptr} {e : Bool} : p ∈ w.held → w.releasing.length < k →
      HeapStats.releaseCheck w.pool = some e → RaceStep w ⟨w.pool, w.held.erase p, (p, e) :: w.releasing⟩
  | releaseFinish {w : RaceWorld} {pre post : List (Ptr × Bool)} {p : Ptr} {e pushOk : Bool} {pool : Pool} :
      w.releasing = pre ++ (p, e) :: post → HeapStats.releaseFinish w.pool p e pushOk = some pool →
      RaceStep w ⟨pool, w.held, pre ++ post⟩
  | use {w : RaceWorld} {p : Ptr} {c c' : TSnapShotContainer} {op : ContainerOp} : p ∈ w.held →
      w.pool.heap.read p = some c → op.Allowed c → op.run objKlass c = some c' →
      RaceStep w { w with pool := { w.pool with heap := w.pool.heap.write p c' } }

/-- The states an interleaving with at most `k` overlapping releases reaches from the start. -/
inductive RaceReachable : RaceWorld → Prop
  | init : RaceReachable ⟨⟨none, ∅⟩, [], []⟩
  | step {w w' : RaceWorld} : RaceReachable w → RaceStep objKlass k w w' → RaceReachable w'

/-- What holds in every state of such an interleaving: ownership as in a sequential run, at most `k` releases in
flight, and room in the bound for every release in flight that will push. -/
structure RaceInv (w : RaceWorld) : Prop where
  owners : Owners w.pool w.owners
  releasing_length : w.releasing.length ≤ k
  queue_length : ∀ q, w.pool.stockQueue = some q → q.length + w.pushing ≤ MAX_STOCK_COUNT + k - 1

/-! ## One step -/

section step

variable {held : List Ptr} {releasing pre post : List (Ptr × Bool)} {p : Ptr} {e : Bool}

/-- A check hands the container from the client to its release. -/
theorem owners_check_perm (hp : p ∈ held) :
    (held.erase p ++ ((p, e) :: releasing).map Prod.fst).Perm (held ++ releasing.map Prod.fst) :=
  List.perm_middle.trans ((List.perm_cons_erase hp).append_right _).symm

/-- The rest of a release takes the container from the owners. -/
theorem owners_finish_perm :
    (held ++ (pre ++ (p, e) :: post).map Prod.fst).Perm (p :: (held ++ (pre ++ post).map Prod.fst)) := by
  simpa only [List.map_append, List.map_cons, ← List.append_assoc] using List.perm_middle

/-- The releases that will push, once one in flight has finished. -/
theorem countP_finish :
    (pre ++ (p, e) :: post).countP (·.2) = (pre ++ post).countP (·.2) + if e then 1 else 0 := by
  simp only [List.countP_append, List.countP_cons]
  omega

end step

namespace RaceInv

variable {objKlass k} {w : RaceWorld} {pool : Pool} {p : Ptr}

theorem init : RaceInv k ⟨⟨none, ∅⟩, [], []⟩ :=
  ⟨⟨fun _ _ h => (by cases h), fun _ _ h => (by cases h), List.nodup_nil, fun _ h => (by cases h),
    fun _ h => (by cases h), fun _ h => (by cases h), fun _ h => (by cases h)⟩, Nat.zero_le k, fun _ h => (by cases h)⟩

/-- The releases that will push are among those in flight. -/
theorem pushing_le (hi : RaceInv k w) : w.pushing ≤ k :=
  (List.countP_le_length _).trans hi.releasing_length

theorem globalInitialize (hi : RaceInv k w) (newOk : Bool) :
    RaceInv k { w with pool := (HeapStats.globalInitialize w.pool newOk).1 } := by
  refine ⟨hi.owners.globalInitialize newOk, hi.releasing_length, ?_⟩
  cases newOk
  · exact hi.queue_length
  · intro q hq
    obtain rfl : q = [] := by simpa [HeapStats.globalInitialize] using hq.symm
    have := hi.pushing_le
    simp only [RaceWorld.pushing, List.length_nil, MAX_STOCK_COUNT] at this ⊢
    omega

theorem globalFinalize (hi : RaceInv k w) (h : HeapStats.globalFinalize w.pool = some pool) :
    RaceInv k { w with pool } :=
  ⟨hi.owners.globalFinalize h, hi.releasing_length, fun q hq => by simp [globalFinalize_stockQueue h] at hq⟩

theorem getInstance {fresh : Option Ptr} {collectRefTree : Bool} {BOM : UInt8} {junk : TSnapShotFileHeader}
    (hi : RaceInv k w) (hfresh : ∀ b, fresh = some b → w.pool.heap.Fresh b)
    (h : HeapStats.getInstance w.pool fresh collectRefTree BOM junk = some (pool, p)) :
    RaceInv k ⟨pool, if p = 0 then w.held else p :: w.held, w.releasing⟩ := by
  refine ⟨?_, hi.releasing_length, fun q' hq' => ?_⟩
  · have := hi.owners.getInstance hfresh h
    split_ifs at this ⊢ <;> exact this
  · obtain ⟨q, hq, hpool⟩ := getInstance_stockQueue h
    obtain rfl := Option.some.inj (hpool.symm.trans hq')
    have := hi.queue_length q hq
    simp only [RaceWorld.pushing, List.length_tail] at this ⊢
    omega

theorem releaseCheck {e : Bool} (hi : RaceInv k w) (hp : p ∈ w.held) (hk : w.releasing.length < k)
    (h : HeapStats.releaseCheck w.pool = some e) : RaceInv k ⟨w.pool, w.held.erase p, (p, e) :: w.releasing⟩ := by
  obtain ⟨q, hq, rfl⟩ := releaseCheck_eq_some.1 h
  refine ⟨hi.owners.perm (owners_check_perm hp).symm, hk, fun q' hq' => ?_⟩
  obtain rfl := Option.some.inj (hq.symm.trans hq')
  have := hi.queue_length q hq
  have hpush : w.pushing ≤ w.releasing.length := List.countP_le_length _
  simp only [RaceWorld.pushing, List.countP_cons] at this hpush ⊢
  split_ifs with hroom <;> simp only [decide_eq_true_eq] at hroom <;> omega

theorem releaseFinish {pre post : List (Ptr × Bool)} {e pushOk : Bool} (hi : RaceInv k w)
    (hr : w.releasing = pre ++ (p, e) :: post) (h : HeapStats.releaseFinish w.pool p e pushOk = some pool) :
    RaceInv k ⟨pool, w.held, pre ++ post⟩ := by
  have hown : w.owners.Perm (p :: (w.held ++ (pre ++ post).map Prod.fst)) := by
    rw [RaceWorld.owners, hr]
    exact owners_finish_perm
  obtain ⟨ho, hq⟩ := (hi.owners.perm hown).releaseFinish h
  have hlen := hi.releasing_length
  have hcount : w.pushing = (pre ++ post).countP (·.2) + if e then 1 else 0 := by
    rw [RaceWorld.pushing, hr, countP_finish]
  rw [hr] at hlen
  simp only [List.length_append, List.length_cons] at hlen
  refine ⟨ho, by simp only [List.length_append]; omega, fun q' hq' => ?_⟩
  simp only [RaceWorld.pushing]
  rcases hq with hq | ⟨rfl, q, hq, hpush⟩
  · have := hi.queue_length q' (hq.symm.trans hq')
    split_ifs at hcount <;> omega
  -- pushed: the release the bound counted is now in the queue
  obtain rfl := Option.some.inj (hpush.symm.trans hq')
  have := hi.queue_length q hq
  simp only [if_true] at hcount
  simp only [List.length_append, List.length_singleton]
  omega

theorem use {c c' : TSnapShotContainer} {op : ContainerOp} (hi : RaceInv k w) (hp : p ∈ w.held)
    (hc : w.pool.heap.read p = some c) (hok : op.Allowed c) (h : op.run objKlass c = some c') :
    RaceInv k { w with pool := { w.pool with heap := w.pool.heap.write p c' } } :=
  ⟨hi.owners.write (List.mem_append_left _ hp) (ContainerOp.run_sound (hi.owners.sound p c hc) hok h)
    (ContainerOp.run_owned (hi.owners.sound p c hc) (hi.owners.owned p c hc) hok h), hi.releasing_length,
    hi.queue_length⟩

/-- **Every step of an interleaving keeps the invariant.** -/
theorem step {w w' : RaceWorld} (hi : RaceInv k w) (h : RaceStep objKlass k w w') : RaceInv k w' := by
  cases h with
  | globalInitialize newOk => exact hi.globalInitialize newOk
  | globalFinalize h => exact hi.globalFinalize h
  | getInstance hfresh h => exact hi.getInstance hfresh h
  | releaseCheck hp hk h => exact hi.releaseCheck hp hk h
  | releaseFinish hr h => exact hi.releaseFinish hr h
  | use hp hc hok h => exact hi.use hp hc hok h

end RaceInv

/-- **The invariant holds in every state of every interleaving.** -/
theorem RaceReachable.raceInv {w : RaceWorld} (h : RaceReachable objKlass k w) : RaceInv k w := by
  induction h with
  | init => exact RaceInv.init
  | step _ hs ih => exact ih.step hs

/-- **Every sequential run is an interleaving with one release at a time**: each `releaseInstance` is its check
followed at once by the rest of the call. -/
theorem Reachable.race {w : World} (hw : Reachable objKlass w) : RaceReachable objKlass 1 ⟨w.pool, w.held, []⟩ := by
  induction hw with
  | init => exact .init
  | @step w w' hw hs ih =>
    cases hs with
    | globalInitialize newOk => exact .step ih (.globalInitialize _ newOk)
    | globalFinalize h => exact .step ih (.globalFinalize h)
    | getInstance hfresh h => exact .step ih (.getInstance hfresh h)
    | releaseInstance hp h =>
      rw [releaseInstance_eq, if_neg ((Reachable.poolInv objKlass hw).held_live _ hp).1] at h
      obtain ⟨e, he, hf⟩ := Option.bind_eq_some.1 h
      exact .step (.step ih (.releaseCheck hp Nat.one_pos he)) (@RaceStep.releaseFinish _ _ _ [] [] _ _ _ _ rfl hf)
    | use hp hc hok h => exact .step ih (.use hp hc hok h)

/-- The state where container 1 was handed out and released is one of an interleaving. -/
theorem race_after_release :
    RaceReachable id 1 ⟨⟨some [1], (∅ : Region TSnapShotContainer).write 1
      (TSnapShotContainer.new false 0 ⟨0, 0, 0, 0, 0, 0, fun _ => 0, 0, 0, 0, 0, 0, 0, 0, 0⟩)⟩, [], []⟩ :=
  Reachable.race id reachable_after_release

/-! ## What every interleaving keeps -/

/-- **Across every interleaving each container has one owner, and every release in flight can finish.**  The
containers the clients hold or are releasing are distinct and live; the queue holds distinct live ones that no client
owns; and the rest of every release in flight is defined, needing the queue only when it pushes. -/
theorem race_single_owner (w : RaceWorld) (hw : RaceReachable objKlass k w) :
    w.owners.Nodup ∧ (∀ q, w.pool.stockQueue = some q → q.Nodup ∧ q.Disjoint w.owners) ∧
    (∀ p, (p ∈ w.owners ∨ ∃ q, w.pool.stockQueue = some q ∧ p ∈ q) → (w.pool.heap.read p).isSome) ∧
    ∀ p e, (p, e) ∈ w.releasing → ∀ pushOk, ((e && pushOk) = false ∨ w.pool.stockQueue.isSome) →
      (HeapStats.releaseFinish w.pool p e pushOk).isSome := by
  have h := (RaceReachable.raceInv objKlass k hw).owners
  refine ⟨h.nodup, fun q hq => ⟨h.queue_nodup q hq, h.queue_disjoint q hq⟩, fun p hp => ?_,
    fun p e hr pushOk hq => ?_⟩
  · rcases hp with hp | ⟨q, hq, hp⟩
    · exact (h.live p hp).2
    · obtain ⟨-, c, hc, -⟩ := h.queue_live q hq p hp
      simp [hc]
  · obtain ⟨c, c', -, hc, hclr, hsc, hoc⟩ :=
      h.held_clear (List.mem_append_right _ (List.mem_map_of_mem Prod.fst hr))
    rw [releaseFinish_eq e pushOk hc hclr (h.destructor_isSome hc) (destructor_isSome hsc hoc)]
    split_ifs with hpush
    · obtain ⟨q, hq⟩ := Option.isSome_iff_exists.1 (hq.resolve_left (by simpa using hpush))
      simp [hq]
    · rfl

/-- **Overlapping releases can overfill the queue, by one container per extra overlap.**  In every state of an
interleaving in which at most `k` releases overlap, the queue holds at most `MAX_STOCK_COUNT + k - 1` containers. -/
theorem release_overlap_bound (w : RaceWorld) (hw : RaceReachable objKlass k w) :
    ∀ q, w.pool.stockQueue = some q → q.length ≤ MAX_STOCK_COUNT + k - 1 :=
  fun q hq => (Nat.le_add_right _ _).trans ((RaceReachable.raceInv objKlass k hw).queue_length q hq)

/-- **Overlapping releases still hand out cleared containers.**  In every state of every interleaving, `getInstance`
hands out, from the queue or new, a container that says it is cleared, and is: every class counter of its map has its
counter and the counters of its child list at zero and its offsets cache dropped. -/
theorem race_getInstance_cleared (w : RaceWorld) (hw : RaceReachable objKlass k w) :
    ∀ fresh collectRefTree BOM junk pool p,
      HeapStats.getInstance w.pool fresh collectRefTree BOM junk = some (pool, p) → p ≠ 0 →
      ∃ c, pool.heap.read p = some c ∧ c.isCleared = true ∧ AllCleared c :=
  fun _ _ _ _ _ _ hg hp => (RaceReachable.raceInv objKlass k hw).owners.handed_out_cleared hg hp

/-- **Every live container of every interleaving can be destroyed.**  Its destructor completes and frees exactly the
class counters its map binds, the nodes of their child lists and the counters of both; every other block keeps its
contents. -/
theorem race_destructor (w : RaceWorld) (hw : RaceReachable objKlass k w) (p : Ptr) (c : TSnapShotContainer)
    (hc : w.pool.heap.read p = some c) :
    ∃ m', c.destructor = some m' ∧ Freed c.mem m' (c.counterMap.entries.map (·.2)) :=
  have h := (RaceReachable.raceInv objKlass k hw).owners
  destructor_spec c (h.sound p c hc) (h.owned p c hc)

/-- **`globalFinalize` deletes exactly the queued containers.**  From every state of every interleaving it completes,
drops the queue and frees every container the queue held; every other container, among them each one a client holds
or is releasing, stays as it was. -/
theorem race_globalFinalize (w : RaceWorld) (hw : RaceReachable objKlass k w) :
    ∃ pool, HeapStats.globalFinalize w.pool = some pool ∧ pool.stockQueue = none ∧
      (∀ x, pool.heap.read x = if (∃ q, w.pool.stockQueue = some q ∧ x ∈ q) then none else w.pool.heap.read x) ∧
      ∀ p ∈ w.owners, pool.heap.read p = w.pool.heap.read p := by
  have h := (RaceReachable.raceInv objKlass k hw).owners
  obtain ⟨pool, hf, hq, hread⟩ := globalFinalize_spec fun q hq => ⟨h.queue_nodup q hq, fun x hx => h.queued x hq hx⟩
  refine ⟨pool, hf, hq, hread, fun p hp => ?_⟩
  rw [hread, if_neg]
  rintro ⟨q, hq', hpq⟩
  exact h.queue_disjoint q hq' hpq hp

/-- Three containers handed out, the first released, then the releases of the other two overlapping: both found room
in a queue of one, and both pushed. -/
theorem reachable_two_releases : ∃ w, RaceReachable id 2 w ∧ w.pool.stockQueue = some [1, 2, 3] := by
  refine ⟨_, .step (.step (.step (.step (.step (.step (.step (.step (.step (.step .init
    (.globalInitialize _ true))
    (@RaceStep.getInstance id 2 _ _ 1 (some 1) false 0 ⟨0, 0, 0, 0, 0, 0, fun _ => 0, 0, 0, 0, 0, 0, 0, 0, 0⟩
      (Region.fresh_of_some (by decide) rfl) rfl))
    (@RaceStep.getInstance id 2 _ _ 2 (some 2) false 0 ⟨0, 0, 0, 0, 0, 0, fun _ => 0, 0, 0, 0, 0, 0, 0, 0, 0⟩
      (Region.fresh_of_some (by decide) rfl) rfl))
    (@RaceStep.getInstance id 2 _ _ 3 (some 3) false 0 ⟨0, 0, 0, 0, 0, 0, fun _ => 0, 0, 0, 0, 0, 0, 0, 0, 0⟩
      (Region.fresh_of_some (by decide) rfl) rfl))
    (@RaceStep.releaseCheck id 2 _ 1 _ (by decide) (by decide) rfl))
    (@RaceStep.releaseFinish id 2 _ [] [] 1 true true _ rfl rfl))
    (@RaceStep.releaseCheck id 2 _ 2 _ (by decide) (by decide) rfl))
    (@RaceStep.releaseCheck id 2 _ 3 _ (by decide) (by decide) rfl))
    (@RaceStep.releaseFinish id 2 _ [(3, true)] [] 2 true true _ rfl rfl))
    (@RaceStep.releaseFinish id 2 _ [] [] 3 true true _ rfl rfl), rfl⟩

/-- The queue of that interleaving holds three containers, more than `MAX_STOCK_COUNT` and as many as the bound for
two overlapping releases allows. -/
theorem two_releases_overflow :
    ∃ w, RaceReachable id 2 w ∧ ∃ q, w.pool.stockQueue = some q ∧ MAX_STOCK_COUNT < q.length ∧
      q.length ≤ MAX_STOCK_COUNT + 2 - 1 :=
  let ⟨w, hw, hq⟩ := reachable_two_releases
  ⟨w, hw, [1, 2, 3], hq, by decide, release_overlap_bound id 2 w hw [1, 2, 3] hq⟩


/-- In that interleaving the three queued containers are distinct and no client owns one. -/
theorem race_single_owner_two_releases :
    ∃ w, RaceReachable id 2 w ∧ w.pool.stockQueue = some [1, 2, 3] ∧ [1, 2, 3].Nodup ∧ [1, 2, 3].Disjoint w.owners :=
  let ⟨w, hw, hq⟩ := reachable_two_releases
  ⟨w, hw, hq, (race_single_owner id 2 w hw).2.1 [1, 2, 3] hq⟩

/-- In that interleaving `globalFinalize` frees the three queued containers. -/
theorem race_globalFinalize_two_releases :
    ∃ w, RaceReachable id 2 w ∧ ∃ pool, HeapStats.globalFinalize w.pool = some pool ∧
      ∀ p ∈ [1, 2, 3], pool.heap.read p = none :=
  let ⟨w, hw, hq⟩ := reachable_two_releases
  let ⟨pool, hf, _, hread, _⟩ := race_globalFinalize id 2 w hw
  ⟨w, hw, pool, hf, fun p hp => by rw [hread, if_pos ⟨_, hq, hp⟩]⟩

/-- Containers `1` and `2` handed out, and `1` used: class `100` counted one object into counter `10` of class
counter `7`, and its child class one into counter `21` of the node `20`.  Then the two releases overlap: both find room
and both push, clearing the containers into the queue. -/
theorem reachable_used_releases :
    ∃ w, RaceReachable id 2 w ∧ w.pool.stockQueue = some [1, 2] ∧ ∃ c, w.pool.heap.read 1 = some c ∧
      c.counterMap.entries.map (·.2) = [7] ∧ c.counterMap.lookup 100 = some 7 ∧ NodeOf c.mem 7 20 ∧
      CounterOf c.mem 7 10 ∧ CounterOf c.mem 7 21 := by
  have hnode : ∀ (m : Memory) (r : TClassCounter) (n : TChildClassCounter), m.classes.read 7 = some r → r.child = 20 →
      m.children.read 20 = some n → n.next = 0 → NodeOf m 7 20 := fun _ r _ hr hc hn hnext =>
    ⟨by decide, r, [20], hr, by rw [hc]; exact .cons (by decide) hn (Seg.nil_iff.2 hnext), List.mem_singleton_self 20⟩
  refine ⟨_, .step (.step (.step (.step (.step (.step (.step (.step (.step (.step (.step (.step .init
    (.globalInitialize _ true))
    (@RaceStep.getInstance id 2 _ _ 1 (some 1) false 0 ⟨0, 0, 0, 0, 0, 0, fun _ => 0, 0, 0, 0, 0, 0, 0, 0, 0⟩
      (Region.fresh_of_some (by decide) rfl) rfl))
    (@RaceStep.getInstance id 2 _ _ 2 (some 2) false 0 ⟨0, 0, 0, 0, 0, 0, fun _ => 0, 0, 0, 0, 0, 0, 0, 0, 0⟩
      (Region.fresh_of_some (by decide) rfl) rfl))
    (@RaceStep.use id 2 _ 1 _ _ (.setIsCleared false) (by decide) rfl rfl rfl))
    (@RaceStep.use id 2 _ 1 _ _ (.pushNewClass 100 ⟨7, some 10⟩ true) (by decide) rfl
      (Alloc.fresh_of_read rfl (by decide) rfl) rfl))
    (@RaceStep.use id 2 _ 1 _ _ (.Inc 10 16) (by decide) rfl rfl rfl))
    (@RaceStep.use id 2 _ 1 _ _ (.pushNewChildClass 7 200 ⟨20, some 21⟩) (by decide) rfl
      (Alloc.fresh_of_read rfl (by decide) rfl) rfl))
    (@RaceStep.use id 2 _ 1 _ _ (.Inc 21 24) (by decide) rfl rfl rfl))
    (@RaceStep.releaseCheck id 2 _ 1 _ (by decide) (by decide) rfl))
    (@RaceStep.releaseCheck id 2 _ 2 _ (by decide) (by decide) rfl))
    (@RaceStep.releaseFinish id 2 _ [(2, true)] [] 1 true true _ rfl rfl))
    (@RaceStep.releaseFinish id 2 _ [] [] 2 true true _ rfl rfl), rfl, _, rfl, rfl, rfl, ?_, ?_, ?_⟩
  · exact hnode _ _ _ rfl rfl rfl rfl
  · exact ⟨.inl 7, ⟨rfl, by decide⟩, rfl⟩
  · exact ⟨.inr 20, hnode _ _ _ rfl rfl rfl rfl, rfl⟩

/-- In that interleaving `getInstance` hands out container `1` again.  It says it is cleared, and it is: its map
binds class `100` to class counter `7`, whose child list holds the node `20`, and all their counters read zero. -/
theorem race_getInstance_cleared_used :
    ∃ w, RaceReachable id 2 w ∧ ∃ pool c, HeapStats.getInstance w.pool none false 0
      ⟨0, 0, 0, 0, 0, 0, fun _ => 0, 0, 0, 0, 0, 0, 0, 0, 0⟩ = some (pool, 1) ∧ pool.heap.read 1 = some c ∧
      c.isCleared = true ∧ AllCleared c ∧ c.counterMap.lookup 100 = some 7 ∧ NodeOf c.mem 7 20 := by
  obtain ⟨w, hw, hq, c, hc, -, hk, hnode, -⟩ := reachable_used_releases
  have hg := @getInstance_eq w.pool _ none false 0 ⟨0, 0, 0, 0, 0, 0, fun _ => 0, 0, 0, 0, 0, 0, 0, 0, 0⟩ hq
    (by decide)
  obtain ⟨c', hc', hcl, hall⟩ := race_getInstance_cleared id 2 w hw none false 0 _ _ 1 hg (by decide)
  obtain rfl := Option.some.inj (hc'.symm.trans hc)
  exact ⟨w, hw, _, c', hg, hc, hcl, hall, hk, hnode⟩

/-- In that interleaving the destructor of container `1` frees class counter `7`, its node `20`, and their counters
`10` and `21`. -/
theorem race_destructor_used :
    ∃ w, RaceReachable id 2 w ∧ ∃ c m', w.pool.heap.read 1 = some c ∧ c.counterMap.lookup 100 = some 7 ∧
      NodeOf c.mem 7 20 ∧ CounterOf c.mem 7 10 ∧ CounterOf c.mem 7 21 ∧ c.destructor = some m' ∧
      m'.classes.read 7 = none ∧ m'.children.read 20 = none ∧ m'.counters.read 10 = none ∧
      m'.counters.read 21 = none := by
  obtain ⟨w, hw, -, c, hc, hent, hk, hnode, h10, h21⟩ := reachable_used_releases
  obtain ⟨m', hd, hf⟩ := race_destructor id 2 w hw 1 c hc
  have h7 : (7 : Ptr) ∈ c.counterMap.entries.map (·.2) := hent ▸ List.mem_singleton_self 7
  exact ⟨w, hw, c, m', hc, hk, hnode, h10, h21, hd, (hf.classes 7).1 ⟨by decide, h7⟩,
    (hf.children 20).1 ⟨7, h7, hnode⟩, (hf.counters 10).1 ⟨7, h7, h10⟩, (hf.counters 21).1 ⟨7, h7, h21⟩⟩

end HeapStats
