import HeapStats.Pool
/-!
# PoolRun — every run of the pool and its clients

A `World` is the pool together with the containers its clients hold.  `Step` is one call: the main thread's
`globalInitialize` and `globalFinalize`, a client's `getInstance` and `releaseInstance`, or a call a client makes on a
container it holds, under the walker's protocol.  `PoolInv` holds in every reachable state (`Reachable.poolInv`): the
queue holds at most `MAX_STOCK_COUNT` distinct, live, cleared containers that no client holds, every client holds a
different live container, and every container is `Sound`.  Its ownership part, `Owners`, is stated for any list of
owners and proved once per call; `PoolRace` reuses it for interleaved releases.
-/
namespace HeapStats

/-- The pool and the containers its clients hold: `held` has one entry per container handed out by `getInstance`
and not yet released. -/
structure World where
  pool : Pool
  held : List Ptr

variable (objKlass : Ptr → Ptr)

/-- One call.  A client releases and uses only a container it holds, following the walker's protocol; `new` hands out
a block not in use. -/
inductive Step : World → World → Prop
  | globalInitialize (w : World) (newOk : Bool) : Step w { w with pool := (HeapStats.globalInitialize w.pool newOk).1 }
  | globalFinalize {w : World} {pool : Pool} : HeapStats.globalFinalize w.pool = some pool → Step w { w with pool }
  | getInstance {w : World} {pool : Pool} {p : Ptr} {fresh : Option Ptr} {collectRefTree : Bool} {BOM : UInt8}
      {junk : TSnapShotFileHeader} : (∀ b, fresh = some b → w.pool.heap.Fresh b) →
      HeapStats.getInstance w.pool fresh collectRefTree BOM junk = some (pool, p) →
      Step w ⟨pool, if p = 0 then w.held else p :: w.held⟩
  | releaseInstance {w : World} {pool : Pool} {p : Ptr} {pushOk : Bool} : p ∈ w.held →
      HeapStats.releaseInstance w.pool p pushOk = some pool → Step w ⟨pool, w.held.erase p⟩
  | use {w : World} {p : Ptr} {c c' : TSnapShotContainer} {op : ContainerOp} : p ∈ w.held →
      w.pool.heap.read p = some c → op.Allowed c → op.run objKlass c = some c' →
      Step w { w with pool := { w.pool with heap := w.pool.heap.write p c' } }

/-- The states a run reaches from the start, where `stockQueue` is `NULL` and no container exists. -/
inductive Reachable : World → Prop
  | init : Reachable ⟨⟨none, ∅⟩, []⟩
  | step {w w' : World} : Reachable w → Step objKlass w w' → Reachable w'

/-- Who owns the containers, when the clients own those in `owners`: every live container is sound with one owner
per counter block; the owned containers are distinct, live and not `NULL`; the queue holds distinct, live, cleared
containers that no client owns. -/
structure Owners (pool : Pool) (owners : List Ptr) : Prop where
  sound : ∀ p c, pool.heap.read p = some c → Sound c
  owned : ∀ p c, pool.heap.read p = some c → Owned c
  nodup : owners.Nodup
  live : ∀ p ∈ owners, p ≠ 0 ∧ (pool.heap.read p).isSome
  queue_nodup : ∀ q, pool.stockQueue = some q → q.Nodup
  queue_disjoint : ∀ q, pool.stockQueue = some q → q.Disjoint owners
  queue_live : ∀ q, pool.stockQueue = some q → ∀ p ∈ q, p ≠ 0 ∧ ∃ c, pool.heap.read p = some c ∧ c.isCleared = true

namespace Owners

variable {pool pool' : Pool} {o : List Ptr} {p : Ptr} {q : List Ptr}

theorem perm {o' : List Ptr} (h : Owners pool o) (hp : o.Perm o') : Owners pool o' :=
  ⟨h.sound, h.owned, hp.nodup_iff.1 h.nodup, fun x hx => h.live x (hp.mem_iff.2 hx), h.queue_nodup,
    fun q hq _ hx hx' => h.queue_disjoint q hq hx (hp.mem_iff.2 hx'), h.queue_live⟩

/-- A live container's destructor completes. -/
theorem destructor_isSome (h : Owners pool o) {c : TSnapShotContainer} (hc : pool.heap.read p = some c) :
    c.destructor.isSome :=
  HeapStats.destructor_isSome (h.sound p c hc) (h.owned p c hc)

/-- A queued container is live and its destructor completes. -/
theorem queued (h : Owners pool o) (x : Ptr) (hq : pool.stockQueue = some q) (hx : x ∈ q) :
    ∃ c, pool.heap.read x = some c ∧ c.destructor.isSome :=
  let ⟨_, c, hc, _⟩ := h.queue_live q hq x hx
  ⟨c, hc, h.destructor_isSome hc⟩

/-- An owned container is live, and `clear(false)` leaves it sound with one owner per counter block. -/
theorem held_clear (h : Owners pool o) (hp : p ∈ o) :
    ∃ c c', p ≠ 0 ∧ pool.heap.read p = some c ∧ c.clear false = some c' ∧ Sound c' ∧ Owned c' := by
  obtain ⟨hp0, hlive⟩ := h.live p hp
  obtain ⟨c, hc⟩ := Option.isSome_iff_exists.1 hlive
  obtain ⟨c', hclr⟩ := clear_ok (h.sound p c hc).wf false
  exact ⟨c, c', hp0, hc, hclr, @ContainerOp.run_sound id (.clear false) c _ (h.sound p c hc) trivial hclr,
    @ContainerOp.run_owned id (.clear false) c _ (h.sound p c hc) (h.owned p c hc) trivial hclr⟩

theorem globalInitialize (h : Owners pool o) (newOk : Bool) : Owners (HeapStats.globalInitialize pool newOk).1 o := by
  cases newOk
  · exact h
  · refine ⟨h.sound, h.owned, h.nodup, h.live, ?_, ?_, ?_⟩ <;> simp [HeapStats.globalInitialize]

theorem globalFinalize (h : Owners pool o) (hf : HeapStats.globalFinalize pool = some pool') : Owners pool' o := by
  obtain ⟨s', hs', hq, hread⟩ := globalFinalize_spec fun q hq => ⟨h.queue_nodup q hq, fun x hx => h.queued x hq hx⟩
  obtain rfl := Option.some.inj (hf.symm.trans hs')
  have hsub : ∀ x c, pool'.heap.read x = some c → pool.heap.read x = some c := fun x c hc => by
    rw [hread] at hc
    split_ifs at hc
    exact hc
  refine ⟨fun x c hc => h.sound x c (hsub x c hc), fun x c hc => h.owned x c (hsub x c hc), h.nodup,
    fun x hx => ⟨(h.live x hx).1, ?_⟩, ?_, ?_, ?_⟩
  · rw [hread, if_neg]
    · exact (h.live x hx).2
    · rintro ⟨q, hq', hxq⟩
      exact h.queue_disjoint q hq' hxq hx
  all_goals simp [hq]

theorem getInstance {fresh : Option Ptr} {collectRefTree : Bool} {BOM : UInt8} {junk : TSnapShotFileHeader}
    (h : Owners pool o) (hfresh : ∀ b, fresh = some b → pool.heap.Fresh b)
    (hg : HeapStats.getInstance pool fresh collectRefTree BOM junk = some (pool', p)) :
    Owners pool' (if p = 0 then o else p :: o) := by
  cases hsq : pool.stockQueue with
  | none => simp [HeapStats.getInstance, hsq] at hg
  | some q =>
    rw [getInstance_eq hsq fun x hx => (h.queue_live q hsq x hx).1] at hg
    rcases q with _ | ⟨x, q⟩
    · rcases fresh with _ | b
      · obtain ⟨rfl, rfl⟩ := Prod.mk.inj (Option.some.inj hg)
        simpa using h
      -- a new container at the fresh block `b`
      obtain ⟨rfl, rfl⟩ := Prod.mk.inj (Option.some.inj hg)
      obtain ⟨hb0, hbn⟩ := hfresh b rfl
      have hbo : b ∉ o := fun hb => by simpa [hbn] using (h.live b hb).2
      rw [if_neg hb0]
      refine ⟨Region.forall_read_write h.sound (Sound.new collectRefTree BOM junk),
        Region.forall_read_write h.owned (Owned.new collectRefTree BOM junk), List.nodup_cons.2 ⟨hbo, h.nodup⟩,
        fun x hx => ?_, ?_, ?_, ?_⟩
      · rcases List.mem_cons.1 hx with rfl | hx
        · simp [hb0]
        · exact ⟨(h.live x hx).1, Region.isSome_read_write (h.live x hx).2⟩
      all_goals simp [hsq]
    -- the front of the queue
    obtain ⟨rfl, rfl⟩ := Prod.mk.inj (Option.some.inj hg)
    obtain ⟨hx0, c, hc, -⟩ := h.queue_live _ hsq x (List.mem_cons_self x q)
    obtain ⟨hxq, hnd⟩ := List.nodup_cons.1 (h.queue_nodup _ hsq)
    rw [if_neg hx0]
    refine ⟨h.sound, h.owned, List.nodup_cons.2 ⟨h.queue_disjoint _ hsq (List.mem_cons_self x q), h.nodup⟩,
      fun y hy => ?_, fun q' hq' => ?_, fun q' hq' => ?_, fun q' hq' => ?_⟩
    · rcases List.mem_cons.1 hy with rfl | hy
      · simp [hx0, hc]
      · exact h.live y hy
    all_goals obtain rfl := Option.some.inj hq'
    · exact hnd
    · intro y hy hy'
      rcases List.mem_cons.1 hy' with rfl | hy'
      · exact hxq hy
      · exact h.queue_disjoint _ hsq (List.mem_cons_of_mem x hy) hy'
    · exact fun y hy => h.queue_live _ hsq y (List.mem_cons_of_mem x hy)

/-- A store of a sound container with one owner per counter block into an owned one. -/
theorem write (h : Owners pool o) (hp : p ∈ o) {c : TSnapShotContainer} (hs : Sound c) (ho : Owned c) :
    Owners { pool with heap := pool.heap.write p c } o :=
  ⟨Region.forall_read_write h.sound hs, Region.forall_read_write h.owned ho, h.nodup,
    fun x hx => ⟨(h.live x hx).1, Region.isSome_read_write (h.live x hx).2⟩, h.queue_nodup, h.queue_disjoint,
    fun q hq x hx => by
      rw [Region.read_write_of_ne fun e : x = p => h.queue_disjoint q hq hx (e ▸ hp)]
      exact h.queue_live q hq x hx⟩

/-- A client gives up `p`, cleared, to the back of the queue. -/
theorem push (h : Owners pool (p :: o)) (hq : pool.stockQueue = some q) {c : TSnapShotContainer} (hs : Sound c)
    (ho : Owned c) (hcl : c.isCleared = true) : Owners ⟨some (q ++ [p]), pool.heap.write p c⟩ o := by
  obtain ⟨hpo, hnd⟩ := List.nodup_cons.1 h.nodup
  have hpq : p ∉ q := fun h' => h.queue_disjoint q hq h' (List.mem_cons_self p o)
  refine ⟨Region.forall_read_write h.sound hs, Region.forall_read_write h.owned ho, hnd, fun x hx => ?_,
    fun q' hq' => ?_, fun q' hq' => ?_, fun q' hq' => ?_⟩
  · have := h.live x (List.mem_cons_of_mem p hx)
    exact ⟨this.1, Region.isSome_read_write this.2⟩
  all_goals obtain rfl := Option.some.inj hq'
  · exact List.nodup_append.2 ⟨h.queue_nodup q hq, List.nodup_singleton p,
      fun x hx hx' => hpq ((List.mem_singleton.1 hx') ▸ hx)⟩
  · intro x hx hx'
    rcases List.mem_append.1 hx with hx | hx
    · exact h.queue_disjoint q hq hx (List.mem_cons_of_mem p hx')
    · exact hpo ((List.mem_singleton.1 hx) ▸ hx')
  · intro x hx
    rcases List.mem_append.1 hx with hx | hx
    · rw [Region.read_write_of_ne fun e : x = p => hpq (e ▸ hx)]
      exact h.queue_live q hq x hx
    · obtain rfl := List.mem_singleton.1 hx
      exact ⟨(h.live x (List.mem_cons_self x o)).1, c, Region.read_write_self, hcl⟩

/-- A client deletes `p`. -/
theorem free (h : Owners pool (p :: o)) : Owners { pool with heap := pool.heap.free p } o := by
  obtain ⟨hpo, hnd⟩ := List.nodup_cons.1 h.nodup
  have hsub : ∀ x c, (pool.heap.free p).read x = some c → pool.heap.read x = some c := fun x c hc => by
    rw [read_free] at hc
    split_ifs at hc
    exact hc
  refine ⟨fun x c hc => h.sound x c (hsub x c hc), fun x c hc => h.owned x c (hsub x c hc), hnd, fun x hx => ?_,
    h.queue_nodup, fun q hq x hx hx' => h.queue_disjoint q hq hx (List.mem_cons_of_mem p hx'), fun q hq x hx => ?_⟩
  · rw [Region.read_free_of_ne fun e : x = p => hpo (e ▸ hx)]
    exact h.live x (List.mem_cons_of_mem p hx)
  · rw [Region.read_free_of_ne fun e : x = p => h.queue_disjoint q hq hx (e ▸ List.mem_cons_self p o)]
    exact h.queue_live q hq x hx

/-- The rest of a release keeps ownership, and pushes only when its check found room. -/
theorem releaseFinish {e pushOk : Bool} (h : Owners pool (p :: o))
    (hf : HeapStats.releaseFinish pool p e pushOk = some pool') :
    Owners pool' o ∧ (pool'.stockQueue = pool.stockQueue ∨
      e = true ∧ ∃ q, pool.stockQueue = some q ∧ pool'.stockQueue = some (q ++ [p])) := by
  obtain ⟨c, c', -, hc, hclr, hsc, hoc⟩ := h.held_clear (List.mem_cons_self p o)
  rw [releaseFinish_eq e pushOk hc hclr (h.destructor_isSome hc) (HeapStats.destructor_isSome hsc hoc)] at hf
  split_ifs at hf with hpush
  · obtain ⟨q, hq, rfl⟩ := Option.map_eq_some'.1 hf
    exact ⟨h.push hq hsc hoc (clear_isCleared hclr), .inr ⟨(Bool.and_eq_true _ _ ▸ hpush).1, q, hq, rfl⟩⟩
  · obtain rfl := Option.some.inj hf
    exact ⟨h.free, .inl rfl⟩

/-- A container `getInstance` hands out is cleared. -/
theorem handed_out_cleared {fresh : Option Ptr} {collectRefTree : Bool} {BOM : UInt8} {junk : TSnapShotFileHeader}
    (h : Owners pool o) (hg : HeapStats.getInstance pool fresh collectRefTree BOM junk = some (pool', p)) (hp : p ≠ 0) :
    ∃ c, pool'.heap.read p = some c ∧ c.isCleared = true ∧ AllCleared c := by
  cases hsq : pool.stockQueue with
  | none => simp [HeapStats.getInstance, hsq] at hg
  | some q =>
    rw [getInstance_eq hsq fun x hx => (h.queue_live q hsq x hx).1] at hg
    rcases q with _ | ⟨x, q⟩
    · rcases fresh with _ | b <;> obtain ⟨rfl, rfl⟩ := Prod.mk.inj (Option.some.inj hg)
      · exact absurd rfl hp
      · exact ⟨_, Region.read_write_self, rfl, fun _ _ h => (by cases h)⟩
    · obtain ⟨rfl, rfl⟩ := Prod.mk.inj (Option.some.inj hg)
      obtain ⟨-, c, hc, hcl⟩ := h.queue_live _ hsq x (List.mem_cons_self x q)
      exact ⟨c, hc, hcl, (h.sound x c hc).clean hcl⟩

end Owners

/-- What holds in every reachable state. -/
structure PoolInv (w : World) : Prop where
  sound : ∀ p c, w.pool.heap.read p = some c → Sound c
  owned : ∀ p c, w.pool.heap.read p = some c → Owned c
  held_nodup : w.held.Nodup
  held_live : ∀ p ∈ w.held, p ≠ 0 ∧ (w.pool.heap.read p).isSome
  queue_length : ∀ q, w.pool.stockQueue = some q → q.length ≤ MAX_STOCK_COUNT
  queue_nodup : ∀ q, w.pool.stockQueue = some q → q.Nodup
  queue_held : ∀ q, w.pool.stockQueue = some q → q.Disjoint w.held
  queue_live : ∀ q, w.pool.stockQueue = some q → ∀ p ∈ q, p ≠ 0 ∧ ∃ c, w.pool.heap.read p = some c ∧ c.isCleared = true

namespace PoolInv

variable {objKlass} {w : World} {pool : Pool} {p : Ptr}

theorem owners (hi : PoolInv w) : Owners w.pool w.held :=
  ⟨hi.sound, hi.owned, hi.held_nodup, hi.held_live, hi.queue_nodup, hi.queue_held, hi.queue_live⟩

theorem of_owners (h : Owners w.pool w.held)
    (hl : ∀ q, w.pool.stockQueue = some q → q.length ≤ MAX_STOCK_COUNT) : PoolInv w :=
  ⟨h.sound, h.owned, h.nodup, h.live, hl, h.queue_nodup, h.queue_disjoint, h.queue_live⟩

theorem init : PoolInv ⟨⟨none, ∅⟩, []⟩ :=
  ⟨fun _ _ h => (by cases h), fun _ _ h => (by cases h), List.nodup_nil, fun _ h => (by cases h),
    fun _ h => (by cases h), fun _ h => (by cases h), fun _ h => (by cases h), fun _ h => (by cases h)⟩

theorem globalInitialize (hi : PoolInv w) (newOk : Bool) :
    PoolInv { w with pool := (HeapStats.globalInitialize w.pool newOk).1 } :=
  of_owners (hi.owners.globalInitialize newOk) <| by
    cases newOk
    · exact hi.queue_length
    · simp [HeapStats.globalInitialize, MAX_STOCK_COUNT]

/-- A live container's destructor completes. -/
theorem destructor_isSome (hi : PoolInv w) {c : TSnapShotContainer} (hc : w.pool.heap.read p = some c) :
    c.destructor.isSome :=
  hi.owners.destructor_isSome hc

/-- A queued container is live and its destructor completes. -/
theorem queued (hi : PoolInv w) (x : Ptr) (q : List Ptr) (hq : w.pool.stockQueue = some q) (hx : x ∈ q) :
    ∃ c, w.pool.heap.read x = some c ∧ c.destructor.isSome :=
  hi.owners.queued x hq hx

theorem globalFinalize (hi : PoolInv w) (h : HeapStats.globalFinalize w.pool = some pool) :
    PoolInv { w with pool } :=
  of_owners (hi.owners.globalFinalize h) fun q hq => by simp [globalFinalize_stockQueue h] at hq

theorem getInstance {fresh : Option Ptr} {collectRefTree : Bool} {BOM : UInt8} {junk : TSnapShotFileHeader}
    (hi : PoolInv w) (hfresh : ∀ b, fresh = some b → w.pool.heap.Fresh b)
    (h : HeapStats.getInstance w.pool fresh collectRefTree BOM junk = some (pool, p)) :
    PoolInv ⟨pool, if p = 0 then w.held else p :: w.held⟩ := by
  refine of_owners (hi.owners.getInstance hfresh h) fun q' hq' => ?_
  obtain ⟨q, hq, hpool⟩ := getInstance_stockQueue h
  obtain rfl := Option.some.inj (hpool.symm.trans hq')
  have := hi.queue_length q hq
  simp only [List.length_tail]
  omega

/-- A held container is live, and `clear(false)` leaves it sound with one owner per counter block. -/
theorem held_clear (hi : PoolInv w) (hp : p ∈ w.held) :
    ∃ c c', p ≠ 0 ∧ w.pool.heap.read p = some c ∧ c.clear false = some c' ∧ Sound c' ∧ Owned c' :=
  hi.owners.held_clear hp

theorem releaseInstance {pushOk : Bool} (hi : PoolInv w) (hp : p ∈ w.held)
    (h : HeapStats.releaseInstance w.pool p pushOk = some pool) : PoolInv ⟨pool, w.held.erase p⟩ := by
  rw [releaseInstance_eq, if_neg (hi.held_live p hp).1] at h
  obtain ⟨e, he, hf⟩ := Option.bind_eq_some.1 h
  obtain ⟨ho, hq⟩ := (hi.owners.perm (List.perm_cons_erase hp)).releaseFinish hf
  refine of_owners ho fun q' hq' => ?_
  rcases hq with hq | ⟨rfl, q, hq, hpush⟩
  · exact hi.queue_length q' (hq.symm.trans hq')
  -- pushed, after a check that found room
  obtain ⟨q₀, hq₀, hroom⟩ := releaseCheck_eq_some.1 he
  obtain rfl := Option.some.inj (hq.symm.trans hq₀)
  obtain rfl := Option.some.inj (hpush.symm.trans hq')
  simpa using hroom

theorem use {c c' : TSnapShotContainer} {op : ContainerOp} (hi : PoolInv w) (hp : p ∈ w.held)
    (hc : w.pool.heap.read p = some c) (hok : op.Allowed c) (h : op.run objKlass c = some c') :
    PoolInv { w with pool := { w.pool with heap := w.pool.heap.write p c' } } :=
  of_owners (hi.owners.write hp (ContainerOp.run_sound (hi.sound p c hc) hok h)
    (ContainerOp.run_owned (hi.sound p c hc) (hi.owned p c hc) hok h)) hi.queue_length

/-- **Every call keeps the invariant.** -/
theorem step {w w' : World} (hi : PoolInv w) (h : Step objKlass w w') : PoolInv w' := by
  cases h with
  | globalInitialize newOk => exact hi.globalInitialize newOk
  | globalFinalize h => exact hi.globalFinalize h
  | getInstance hfresh h => exact hi.getInstance hfresh h
  | releaseInstance hp h => exact hi.releaseInstance hp h
  | use hp hc hok h => exact hi.use hp hc hok h

end PoolInv

/-- **The invariant holds in every reachable state.** -/
theorem Reachable.poolInv {w : World} (h : Reachable objKlass w) : PoolInv w := by
  induction h with
  | init => exact PoolInv.init
  | step _ hs ih => exact ih.step hs

/-! ## What every run keeps -/

/-- **The pool keeps every container with one owner.**  In every reachable state the queue holds at most
`MAX_STOCK_COUNT` containers, each once and none that a client holds, and no two clients hold the same container;
every container the queue or a client holds is live; and no delete is undefined, since releasing a held container and
`globalFinalize` always complete: a container is deleted only while live, its destructor frees each block once, and
once deleted nobody holds it. -/
theorem pool_single_owner (w : World) (hw : Reachable objKlass w) :
    (∀ q, w.pool.stockQueue = some q → q.length ≤ MAX_STOCK_COUNT ∧ q.Nodup ∧ q.Disjoint w.held) ∧ w.held.Nodup ∧
    (∀ p, (p ∈ w.held ∨ ∃ q, w.pool.stockQueue = some q ∧ p ∈ q) → (w.pool.heap.read p).isSome) ∧
    (∀ p ∈ w.held, ∀ pushOk, w.pool.stockQueue.isSome → (HeapStats.releaseInstance w.pool p pushOk).isSome) ∧
    (HeapStats.globalFinalize w.pool).isSome := by
  have hi := hw.poolInv
  refine ⟨fun q hq => ⟨hi.queue_length q hq, hi.queue_nodup q hq, hi.queue_held q hq⟩, hi.held_nodup,
    fun p hp => ?_, fun p hp pushOk hq => ?_, ?_⟩
  · rcases hp with hp | ⟨q, hq, hp⟩
    · exact (hi.held_live p hp).2
    · obtain ⟨-, c, hc, -⟩ := hi.queue_live q hq p hp
      simp [hc]
  · obtain ⟨q, hq⟩ := Option.isSome_iff_exists.1 hq
    obtain ⟨c, c', hp0, hc, hclr, hsc, hoc⟩ := hi.held_clear hp
    obtain ⟨s', hs', -⟩ := releaseInstance_spec pushOk hp0 hq hc hclr (hi.destructor_isSome hc)
      (destructor_isSome hsc hoc)
    simp [hs']
  · obtain ⟨s', hs', -⟩ := globalFinalize_spec fun q hq => ⟨hi.queue_nodup q hq, fun x hx => hi.queued x q hq hx⟩
    simp [hs']

/-- `globalInitialize`, a `getInstance` that makes container 1, and its release reach a state whose queue holds it. -/
theorem reachable_after_release :
    Reachable id ⟨⟨some [1], (∅ : Region TSnapShotContainer).write 1
      (TSnapShotContainer.new false 0 ⟨0, 0, 0, 0, 0, 0, fun _ => 0, 0, 0, 0, 0, 0, 0, 0, 0⟩)⟩, []⟩ := by
  have h1 : Reachable id ⟨⟨some [], ∅⟩, []⟩ := .step .init (.globalInitialize _ true)
  have h2 : Reachable id ⟨⟨some [], (∅ : Region TSnapShotContainer).write 1
      (TSnapShotContainer.new false 0 ⟨0, 0, 0, 0, 0, 0, fun _ => 0, 0, 0, 0, 0, 0, 0, 0, 0⟩)⟩, [1]⟩ :=
    .step h1 (@Step.getInstance id _ _ 1 (some 1) false 0 _ (Region.fresh_of_some (by decide) rfl) rfl)
  exact .step h2 (@Step.releaseInstance id _ _ 1 true (List.mem_singleton_self 1) rfl)

/-- Four containers handed out and three released: the first two go to the queue, which is then full, so the third
is deleted; the fourth is still held. -/
theorem reachable_full_queue :
    ∃ w, Reachable id w ∧ w.pool.stockQueue = some [1, 2] ∧ w.held = [4] ∧ w.pool.heap.read 3 = none := by
  exact ⟨_, .step (.step (.step (.step (.step (.step (.step (.step .init
    (.globalInitialize _ true))
    (@Step.getInstance id _ _ 1 (some 1) false 0 ⟨0, 0, 0, 0, 0, 0, fun _ => 0, 0, 0, 0, 0, 0, 0, 0, 0⟩
      (Region.fresh_of_some (by decide) rfl) rfl))
    (@Step.getInstance id _ _ 2 (some 2) false 0 ⟨0, 0, 0, 0, 0, 0, fun _ => 0, 0, 0, 0, 0, 0, 0, 0, 0⟩
      (Region.fresh_of_some (by decide) rfl) rfl))
    (@Step.getInstance id _ _ 3 (some 3) false 0 ⟨0, 0, 0, 0, 0, 0, fun _ => 0, 0, 0, 0, 0, 0, 0, 0, 0⟩
      (Region.fresh_of_some (by decide) rfl) rfl))
    (@Step.getInstance id _ _ 4 (some 4) false 0 ⟨0, 0, 0, 0, 0, 0, fun _ => 0, 0, 0, 0, 0, 0, 0, 0, 0⟩
      (Region.fresh_of_some (by decide) rfl) rfl))
    (@Step.releaseInstance id _ _ 1 true (by decide) rfl))
    (@Step.releaseInstance id _ _ 2 true (by decide) rfl))
    (@Step.releaseInstance id _ _ 3 true (by decide) rfl), rfl, rfl, rfl⟩

/-- In that state the full queue holds two distinct containers, not the held one; the held one can still be released
(and is deleted, the queue being full), and the pool finalized. -/
theorem pool_single_owner_full_queue :
    ∃ w, Reachable id w ∧ w.pool.stockQueue = some [1, 2] ∧ w.held = [4] ∧ w.pool.heap.read 3 = none ∧
      [1, 2].length ≤ MAX_STOCK_COUNT ∧ [1, 2].Nodup ∧ [1, 2].Disjoint [4] ∧
      (∀ pushOk, (HeapStats.releaseInstance w.pool 4 pushOk).isSome) ∧ (HeapStats.globalFinalize w.pool).isSome := by
  obtain ⟨w, hw, hq, hh, h3⟩ := reachable_full_queue
  obtain ⟨hqueue, -, -, hrel, hfin⟩ := pool_single_owner id w hw
  obtain ⟨hlen, hnd, hdis⟩ := hqueue [1, 2] hq
  exact ⟨w, hw, hq, hh, h3, hlen, hnd, hh ▸ hdis, fun pushOk => hrel 4 (by simp [hh]) pushOk (by simp [hq]), hfin⟩

/-- **Every container `getInstance` hands out is cleared.**  In every reachable state a container that says it is
cleared is (every class counter of its map has its counter and the counters of its child list at zero and its offsets
cache dropped), and `getInstance` hands out, from the queue or new, a container that says it is cleared. -/
theorem getInstance_cleared (w : World) (hw : Reachable objKlass w) :
    (∀ p c, w.pool.heap.read p = some c → c.isCleared = true → AllCleared c) ∧
    ∀ fresh collectRefTree BOM junk pool p,
      HeapStats.getInstance w.pool fresh collectRefTree BOM junk = some (pool, p) → p ≠ 0 →
      ∃ c, pool.heap.read p = some c ∧ c.isCleared = true ∧ AllCleared c := by
  have hi := hw.poolInv
  exact ⟨fun p c hc => (hi.sound p c hc).clean, fun _ _ _ _ _ _ hg hp => hi.owners.handed_out_cleared hg hp⟩

/-- Container `1` handed out and used: class `100` counted one object of 16 bytes into counter `10`, its child class
one of 24 bytes into counter `21`, and the class cached its offsets; then released, which clears it into the queue. -/
theorem reachable_used_release :
    ∃ w w', Reachable id w ∧ Step id w w' ∧ w.held = [1] ∧ w'.held = [] ∧
      (∃ c, w.pool.heap.read 1 = some c ∧ c.isCleared = false ∧ c.mem.counters.read 10 = some ⟨1, 16⟩ ∧
        c.mem.counters.read 21 = some ⟨1, 24⟩) ∧
      ∃ pool c, HeapStats.getInstance w'.pool none false 0 ⟨0, 0, 0, 0, 0, 0, fun _ => 0, 0, 0, 0, 0, 0, 0, 0, 0⟩ =
        some (pool, 1) ∧ pool.heap.read 1 = some c ∧ c.counterMap.lookup 100 = some 7 ∧
        ∃ cls, c.mem.classes.read 7 = some cls ∧ cls.child = 20 := by
  exact ⟨_, _, .step (.step (.step (.step (.step (.step (.step (.step .init
    (.globalInitialize _ true))
    (@Step.getInstance id _ _ 1 (some 1) false 0 ⟨0, 0, 0, 0, 0, 0, fun _ => 0, 0, 0, 0, 0, 0, 0, 0, 0⟩
      (Region.fresh_of_some (by decide) rfl) rfl))
    (@Step.use id _ 1 _ _ (.setIsCleared false) (List.mem_singleton_self 1) rfl rfl rfl))
    (@Step.use id _ 1 _ _ (.pushNewClass 100 ⟨7, some 10⟩ true) (List.mem_singleton_self 1) rfl
      (Alloc.fresh_of_read rfl (by decide) rfl) rfl))
    (@Step.use id _ 1 _ _ (.Inc 10 16) (List.mem_singleton_self 1) rfl rfl rfl))
    (@Step.use id _ 1 _ _ (.pushNewChildClass 7 200 ⟨20, some 21⟩) (List.mem_singleton_self 1) rfl
      (Alloc.fresh_of_read rfl (by decide) rfl) rfl))
    (@Step.use id _ 1 _ _ (.Inc 21 24) (List.mem_singleton_self 1) rfl rfl rfl))
    (@Step.use id _ 1 _ _ (.setOffsets 7 55 4) (List.mem_singleton_self 1) rfl rfl rfl),
    @Step.releaseInstance id _ _ 1 true (List.mem_singleton_self 1) rfl, rfl, rfl, ⟨_, rfl, rfl, rfl, rfl⟩, _, _, rfl,
    rfl, rfl, _, rfl, rfl⟩

/-- From there `getInstance` hands container `1` out again.  It says it is cleared, and it is: its map still binds
class `100` to class counter `7`, whose child list is not empty, and all their counters read zero. -/
theorem getInstance_cleared_after_use :
    ∃ w w', Reachable id w ∧ Step id w w' ∧
      (∃ c, w.pool.heap.read 1 = some c ∧ c.isCleared = false ∧ c.mem.counters.read 10 = some ⟨1, 16⟩ ∧
        c.mem.counters.read 21 = some ⟨1, 24⟩) ∧
      ∃ pool c, HeapStats.getInstance w'.pool none false 0 ⟨0, 0, 0, 0, 0, 0, fun _ => 0, 0, 0, 0, 0, 0, 0, 0, 0⟩ =
        some (pool, 1) ∧ pool.heap.read 1 = some c ∧ c.isCleared = true ∧ AllCleared c ∧
        c.counterMap.lookup 100 = some 7 ∧ ∃ cls, c.mem.classes.read 7 = some cls ∧ cls.child = 20 := by
  obtain ⟨w, w', hw, hs, -, -, hdirty, pool, c, hg, hc, hk, hcls⟩ := reachable_used_release
  obtain ⟨c', hc', hcl, hall⟩ := (getInstance_cleared id w' (.step hw hs)).2 none false 0
    ⟨0, 0, 0, 0, 0, 0, fun _ => 0, 0, 0, 0, 0, 0, 0, 0, 0⟩ pool 1 hg (by decide)
  obtain rfl := Option.some.inj (hc'.symm.trans hc)
  exact ⟨w, w', hw, hs, hdirty, pool, c', hg, hc, hcl, hall, hk, hcls⟩

end HeapStats
