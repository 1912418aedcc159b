import HeapStats.Operations
import Mathlib.Logic.Relation
/-!
# ChildRace — walkers that share a child list

The walker runs on many threads.  The spin lock of a class counter serialises the `pushNewChildClass` calls on its
child list, but `findChildClass` takes no lock, and its promotion relinks the list.  That is safe when the walkers are
partitioned so that a lookup never runs while a push holds the lock, and it is not safe otherwise.

A push is its allocation (`allocChildClass`, before the lock) followed by its locked part (`linkChildClass`):
`pushNewChildClass_eq`.  The locked part walks the list one node per round, so `ChildRaceStep` has one step for the
allocation, one for taking the lock and reading the head, one per round of the walk, and one for the link.  A lookup
is one step: partitioned walkers never run two lookups on one list at once, and lookups that overlap each other,
whose unlocked relinking can leave the list cyclic, are outside the model.  `PushAt` says where a push stands, and
the nodes linked so far are a ghost list.  A push that runs alone is a run of this model that ends where
`pushNewChildClass` does (`pushNewChildClass_race`).

With the lock and the partition (`ChildRaceStep objKlass clsCounter false`), every interleaving keeps `ChildRaceInv`.
The list stays a chain of exactly the linked nodes, each once, and some call in flight can always take its next step
(`child_race_no_lost_node`).  Without the partition, a promotion that runs while a push is about to link after the last
node loses the node that was promoted past (`child_race_needs_partition`).
-/
namespace HeapStats

/-- The part of `pushNewChildClass(clsCounter, objData)` before the spin lock: allocate the node and its counter, zero
the counter and set `objData`.  The memory and the node (`0` for `NULL`). -/
def allocChildClass (m : Memory) (objData : Ptr) (a : Alloc) : Option (Memory × Ptr) :=
  if a.block = 0 then some (m, 0)
  else
    let children := m.children.write a.block TChildClassCounter.zero
    match a.counter with
    | none => some ({ m with children := children.free a.block }, 0)
    | some counter => do
      let counters ← clearObjectCounter (m.counters.write counter TObjectCounter.zero) counter
      let children := children.write a.block { counter, objData, next := 0, callCount := 0 }
      return ({ m with counters, children }, a.block)

/-- The part of `pushNewChildClass` under the spin lock: link `newCounter` after the last node of the child list of
`clsCounter`, or as its head when the list is empty. -/
def linkChildClass (m : Memory) (clsCounter newCounter : Ptr) : Option Memory := do
  let cls ← m.classes.read clsCounter
  if cls.child = 0 then
    let classes ← m.classes.modify clsCounter fun c => { c with child := newCounter }
    return { m with classes }
  else
    let last ← lastChildClass m.children m.children.size cls.child
    let children ← m.children.modify last fun n => { n with next := newCounter }
    return { m with children }

/-- **`pushNewChildClass` is its allocation followed by its locked part.** -/
theorem pushNewChildClass_eq (m : Memory) (clsCounter objData : Ptr) (a : Alloc) :
    pushNewChildClass m clsCounter objData a = (allocChildClass m objData a).bind fun r =>
      if r.2 = 0 then some r else (linkChildClass r.1 clsCounter r.2).map (·, r.2) := by
  unfold pushNewChildClass allocChildClass linkChildClass
  by_cases h0 : a.block = 0
  · simp [h0]
  cases a.counter <;> simp [h0, clearObjectCounter, Region.modify, Option.map_bind, apply_ite (Option.map _)]

/-- What a successful allocation leaves: a new node, not linked, and the class counters as they were. -/
theorem allocChildClass_spec {m m' : Memory} {objData node : Ptr} {a : Alloc}
    (h : allocChildClass m objData a = some (m', node)) (h0 : node ≠ 0) :
    node = a.block ∧ m'.classes = m.classes ∧ ∃ n, n.next = 0 ∧ m'.children = m.children.write node n := by
  unfold allocChildClass at h
  split_ifs at h with hb
  · exact absurd (Prod.mk.inj (Option.some.inj h)).2.symm h0
  cases hc : a.counter with
  | none =>
    simp only [hc, Option.some.injEq, Prod.mk.injEq] at h
    exact absurd h.2.symm h0
  | some counter =>
    simp only [hc, clearObjectCounter, Region.modify, Region.read_write_self, Option.map_some', Option.bind_eq_bind,
      Option.some_bind, Option.some.injEq, Prod.mk.injEq] at h
    obtain ⟨rfl, rfl⟩ := h
    exact ⟨rfl, rfl, _, rfl, Region.write_write⟩

/-! ## Chains that grow at the tail -/

namespace Chain

variable {h : Region TChildClassCounter} {p c : Ptr} {xs : List Ptr} {n : TChildClassCounter}

/-- The node after a node of a chain is the next one of the chain, or the chain ends there. -/
theorem next_cases (hc : Chain h p xs) (hx : c ∈ xs) (hn : h.read c = some n) :
    (n.next = 0 ∧ ∃ pre, xs = pre ++ [c]) ∨ (n.next ≠ 0 ∧ n.next ∈ xs) := by
  obtain ⟨pre, post, rfl⟩ := List.append_of_mem hx
  obtain ⟨q, -, hs⟩ := Seg.of_append hc
  obtain ⟨-, -, n', hn', hpost⟩ := Seg.cons_iff.1 hs
  obtain rfl := Option.some.inj (hn.symm.trans hn')
  cases post with
  | nil => exact .inl ⟨Seg.nil_iff.1 hpost, pre, rfl⟩
  | cons y post =>
    obtain ⟨rfl, hy, -⟩ := Seg.cons_iff.1 hpost
    exact .inr ⟨hy, by simp⟩

/-- The head of a chain that is not empty is on it. -/
theorem head_mem (hc : Chain h p xs) (hp : p ≠ 0) : p ∈ xs := by
  cases xs with
  | nil => exact absurd (Seg.nil_iff.1 hc) hp
  | cons x xs =>
    obtain ⟨rfl, -⟩ := Seg.cons_iff.1 hc
    exact List.mem_cons_self p xs

/-- Linking an unlinked node after the last node of a chain extends the chain by it. -/
theorem snoc {l x : Ptr} {pre : List Ptr} {nl nx : TChildClassCounter} (hc : Chain h p (pre ++ [l]))
    (hl : h.read l = some nl) (hx : h.read x = some nx) (hx0 : x ≠ 0) (hnext : nx.next = 0)
    (hxs : x ∉ pre ++ [l]) : Chain (h.write l { nl with next := x }) p (pre ++ [l, x]) := by
  obtain ⟨q, hpre, hs⟩ := Seg.of_append hc
  obtain ⟨rfl, hl0, -⟩ := Seg.singleton_iff.1 hs
  have hlpre : q ∉ pre := by have := hc.nodup; simp [List.nodup_append] at this; exact this.2
  have hxl : x ≠ q := fun e => hxs (by simp [e])
  refine (hpre.frame_of_read fun y hy => Region.read_write_of_ne fun e : y = q => hlpre (e ▸ hy)).append
    (.cons hl0 Region.read_write_self (Seg.singleton_iff.2 ⟨rfl, hx0, nx, ?_, hnext⟩))
  rw [Region.read_write_of_ne hxl, hx]

end Chain

/-! ## Interleaved walkers -/

/-- Where a `pushNewChildClass` call on the class counter stands once its node is allocated. -/
inductive PushAt where
  /-- At `spinLockWait`, with the new node. -/
  | wait (node : Ptr)
  /-- Holding the spin lock, at `counter` of the walk to the last node. -/
  | walk (node counter : Ptr)
  /-- Holding the spin lock, having found that `counter` is the last node: at `counter->next = newCounter`. -/
  | link (node counter : Ptr)

namespace PushAt

/-- The node the call links. -/
def node : PushAt → Ptr
  | wait node | walk node _ | link node _ => node

/-- The call holds the spin lock. -/
def holds : PushAt → Bool
  | wait _ => false
  | walk .. | link .. => true

/-- Where the call's cursor stands on the list `xs`: the walk is on it, and the link comes after its last node. -/
def Cursor (xs : List Ptr) : PushAt → Prop
  | wait _ => True
  | walk _ c => c ∈ xs
  | link _ c => ∃ pre, xs = pre ++ [c]

/-- A call that waits for the lock has no cursor. -/
theorem cursor_of_holds_eq_false {xs : List Ptr} : ∀ {t : PushAt}, t.holds = false → t.Cursor xs
  | wait _, _ => trivial

end PushAt

/-- The memory, the `pushNewChildClass` calls on the class counter that are past their allocation, and, as a ghost,
the nodes linked into its list so far. -/
structure ChildWorld where
  mem : Memory
  pushes : List PushAt
  linked : List Ptr

variable (objKlass : Ptr → Ptr) (clsCounter : Ptr) (overlap : Bool)

/-- One step of an interleaving of walkers on the child list of `clsCounter`.  A push takes the spin lock only when
no call holds it.  A lookup runs at any time when `overlap`, and otherwise only while no push holds the lock, which
is what partitioned walkers give. -/
inductive ChildRaceStep : ChildWorld → ChildWorld → Prop
  | alloc {w : ChildWorld} {objData : Ptr} {a : Alloc} {mem : Memory} {node : Ptr} :
      a.Fresh w.mem.children w.mem.counters → allocChildClass w.mem objData a = some (mem, node) → node ≠ 0 →
      ChildRaceStep w ⟨mem, .wait node :: w.pushes, w.linked⟩
  | acquire {w : ChildWorld} {pre post : List PushAt} {node : Ptr} {cls : TClassCounter} :
      w.pushes = pre ++ .wait node :: post → (∀ t ∈ w.pushes, t.holds = false) →
      w.mem.classes.read clsCounter = some cls → cls.child ≠ 0 →
      ChildRaceStep w ⟨w.mem, pre ++ .walk node cls.child :: post, w.linked⟩
  | acquireEmpty {w : ChildWorld} {pre post : List PushAt} {node : Ptr} {cls : TClassCounter} :
      w.pushes = pre ++ .wait node :: post → (∀ t ∈ w.pushes, t.holds = false) →
      w.mem.classes.read clsCounter = some cls → cls.child = 0 →
      ChildRaceStep w ⟨{ w.mem with classes := w.mem.classes.write clsCounter { cls with child := node } },
        pre ++ post, w.linked ++ [node]⟩
  | walk {w : ChildWorld} {pre post : List PushAt} {node counter : Ptr} {n : TChildClassCounter} :
      w.pushes = pre ++ .walk node counter :: post → w.mem.children.read counter = some n →
      ChildRaceStep w ⟨w.mem, pre ++ (if n.next = 0 then .link node counter else .walk node n.next) :: post, w.linked⟩
  | link {w : ChildWorld} {pre post : List PushAt} {node counter : Ptr} {n : TChildClassCounter} :
      w.pushes = pre ++ .link node counter :: post → w.mem.children.read counter = some n →
      ChildRaceStep w ⟨{ w.mem with children := w.mem.children.write counter { n with next := node } }, pre ++ post,
        w.linked ++ [node]⟩
  | findChildClass {w : ChildWorld} {klassOop : Ptr} {mem : Memory} {r : Ptr} :
      (overlap = true ∨ ∀ t ∈ w.pushes, t.holds = false) →
      HeapStats.findChildClass objKlass w.mem clsCounter klassOop = some (mem, r) →
      ChildRaceStep w ⟨mem, w.pushes, w.linked⟩

/-- What every interleaving keeps: the list is a chain of exactly the linked nodes, and the cursor of the lock's
holder stands on it; the nodes linked or in flight are distinct, and those in flight are allocated and not linked yet;
at most one call holds the lock. -/
structure ChildRaceInv (w : ChildWorld) : Prop where
  list : ∃ cls xs, w.mem.classes.read clsCounter = some cls ∧ Chain w.mem.children cls.child xs ∧
    xs.Perm w.linked ∧ ∀ t ∈ w.pushes, t.Cursor xs
  nodup : (w.linked ++ w.pushes.map PushAt.node).Nodup
  unlinked : ∀ t ∈ w.pushes, t.node ≠ 0 ∧ ∃ n, w.mem.children.read t.node = some n ∧ n.next = 0
  holder : w.pushes.countP (·.holds) ≤ 1

/-! ## One step -/

section pushes

variable {pre post : List PushAt} {x : PushAt}

/-- The calls in flight other than one. -/
theorem mem_pushes {t : PushAt} : t ∈ pre ++ x :: post ↔ t = x ∨ t ∈ pre ++ post :=
  List.perm_middle.mem_iff.trans List.mem_cons

theorem countP_pushes :
    (pre ++ x :: post).countP (·.holds) = (pre ++ post).countP (·.holds) + if x.holds then 1 else 0 := by
  rw [List.perm_middle.countP_eq, List.countP_cons]

/-- The nodes linked or in flight, once the call at `x` has linked its node. -/
theorem nodes_linked_perm (linked : List Ptr) :
    (linked ++ (pre ++ x :: post).map PushAt.node).Perm (linked ++ [x.node] ++ (pre ++ post).map PushAt.node) := by
  simpa using (List.perm_middle.map PushAt.node).append_left linked

/-- No call holds the lock. -/
theorem countP_holds_le_one {l : List PushAt} (h : ∀ t ∈ l, t.holds = false) : l.countP (·.holds) ≤ 1 := by
  rw [List.countP_eq_zero.2 fun t ht => by simp [h t ht]]
  omega

end pushes

namespace ChildRaceInv

variable {objKlass clsCounter} {w : ChildWorld} {pre post : List PushAt} {x : PushAt} {node : Ptr}

theorem init {cls : TClassCounter} (hcls : w.mem.classes.read clsCounter = some cls)
    (hxs : Chain w.mem.children cls.child w.linked) (hp : w.pushes = []) : ChildRaceInv clsCounter w :=
  ⟨⟨cls, w.linked, hcls, hxs, .refl _, by simp [hp]⟩, by simpa [hp] using hxs.nodup, by simp [hp], by simp [hp]⟩

/-- Only the holder of the lock walks or links. -/
theorem not_holds (hi : ChildRaceInv clsCounter w) (hp : w.pushes = pre ++ x :: post) (hx : x.holds = true) :
    ∀ t ∈ pre ++ post, t.holds = false := by
  have := hi.holder
  rw [hp, countP_pushes, if_pos hx] at this
  have h0 : (pre ++ post).countP (·.holds) = 0 := by omega
  exact fun t ht => by simpa using List.countP_eq_zero.1 h0 t ht

/-- A node in flight is not linked yet. -/
theorem node_not_linked (hi : ChildRaceInv clsCounter w) {t : PushAt} (ht : t ∈ w.pushes) : t.node ∉ w.linked :=
  fun hm => List.disjoint_of_nodup_append hi.nodup hm (List.mem_map_of_mem _ ht)

/-- The nodes linked or in flight stay distinct when the call at `x` links its node. -/
theorem nodup_link (hi : ChildRaceInv clsCounter w) (hp : w.pushes = pre ++ x :: post) :
    (w.linked ++ [x.node] ++ (pre ++ post).map PushAt.node).Nodup :=
  (nodes_linked_perm w.linked).nodup_iff.1 (hp ▸ hi.nodup)

theorem alloc {objData : Ptr} {a : Alloc} {mem : Memory} (hi : ChildRaceInv clsCounter w)
    (ha : a.Fresh w.mem.children w.mem.counters) (h : allocChildClass w.mem objData a = some (mem, node))
    (h0 : node ≠ 0) : ChildRaceInv clsCounter ⟨mem, .wait node :: w.pushes, w.linked⟩ := by
  obtain ⟨rfl, hcl, n, hn, hch⟩ := allocChildClass_spec h h0
  obtain ⟨counters, children, classes⟩ := mem
  obtain rfl : classes = w.mem.classes := hcl
  obtain rfl : children = w.mem.children.write a.block n := hch
  have hne : ∀ x, (w.mem.children.read x).isSome → x ≠ a.block := fun x hx e => by simp [e, ha.block h0] at hx
  obtain ⟨cls, xs, hcls, hxs, hperm, hcur⟩ := hi.list
  have hlinked : ∀ x ∈ w.linked, x ≠ a.block := fun x hx =>
    hne x (by obtain ⟨-, n, hn⟩ := Seg.live hxs (hperm.mem_iff.2 hx); simp [hn])
  have hflight : ∀ t ∈ w.pushes, t.node ≠ a.block := fun t ht =>
    hne _ (by obtain ⟨-, n, hn, -⟩ := hi.unlinked t ht; simp [hn])
  refine ⟨⟨cls, xs, hcls, hxs.frame_of_read fun x hx => Region.read_write_of_ne (hlinked x (hperm.mem_iff.1 hx)),
    hperm, List.forall_mem_cons.2 ⟨trivial, hcur⟩⟩, ?_, fun t ht => ?_, by simpa using hi.holder⟩
  · refine List.nodup_middle.2 (List.nodup_cons.2 ⟨fun hm => ?_, hi.nodup⟩)
    rcases List.mem_append.1 hm with hm | hm
    · exact hlinked _ hm rfl
    · obtain ⟨t, ht, e⟩ := List.mem_map.1 hm
      exact hflight t ht e
  · rcases List.mem_cons.1 ht with rfl | ht
    · exact ⟨h0, n, Region.read_write_self, hn⟩
    · rw [Region.read_write_of_ne (hflight t ht)]
      exact hi.unlinked t ht

/-- The call at `x` moves on to `y` with the same node, on an unchanged memory: taking the lock on a list that is not
empty, or one round of the walk. -/
theorem replace {y : PushAt} (hi : ChildRaceInv clsCounter w) (hp : w.pushes = pre ++ x :: post)
    (hnode : y.node = x.node) (hheld : y.holds = true → ∀ t ∈ pre ++ post, t.holds = false)
    (hcur : ∀ cls xs, w.mem.classes.read clsCounter = some cls → Chain w.mem.children cls.child xs →
      (∀ t ∈ w.pushes, t.Cursor xs) → y.Cursor xs) :
    ChildRaceInv clsCounter ⟨w.mem, pre ++ y :: post, w.linked⟩ := by
  obtain ⟨cls, xs, hcls, hxs, hperm, hcurs⟩ := hi.list
  have hold : ∀ t ∈ pre ++ post, t ∈ w.pushes := fun t ht => hp ▸ mem_pushes.2 (.inr ht)
  refine ⟨⟨cls, xs, hcls, hxs, hperm, fun t ht => ?_⟩, ?_, fun t ht => ?_, ?_⟩
  · rcases mem_pushes.1 ht with rfl | ht
    · exact hcur cls xs hcls hxs hcurs
    · exact hcurs t (hold t ht)
  · simpa [hp, hnode] using hi.nodup
  · rcases mem_pushes.1 ht with rfl | ht
    · exact hnode ▸ hi.unlinked x (hp ▸ mem_pushes.2 (.inl rfl))
    · exact hi.unlinked t (hold t ht)
  · have := hi.holder
    rw [hp, countP_pushes] at this
    rw [countP_pushes]
    by_cases hy : y.holds = true
    · rw [List.countP_eq_zero.2 (by simpa using hheld hy)]
      simp [hy]
    · rw [if_neg hy]
      split_ifs at this <;> omega

theorem acquire {cls : TClassCounter} (hi : ChildRaceInv clsCounter w) (hp : w.pushes = pre ++ .wait node :: post)
    (hfree : ∀ t ∈ w.pushes, t.holds = false) (hcls : w.mem.classes.read clsCounter = some cls) (h0 : cls.child ≠ 0) :
    ChildRaceInv clsCounter ⟨w.mem, pre ++ .walk node cls.child :: post, w.linked⟩ :=
  hi.replace hp rfl (fun _ t ht => hfree t (hp ▸ mem_pushes.2 (.inr ht))) fun cls' _ hcls' hxs _ => by
    obtain rfl := Option.some.inj (hcls.symm.trans hcls')
    exact hxs.head_mem h0

theorem walk {counter : Ptr} {n : TChildClassCounter} (hi : ChildRaceInv clsCounter w)
    (hp : w.pushes = pre ++ .walk node counter :: post) (hn : w.mem.children.read counter = some n) :
    ChildRaceInv clsCounter
      ⟨w.mem, pre ++ (if n.next = 0 then .link node counter else .walk node n.next) :: post, w.linked⟩ :=
  hi.replace hp (by split <;> rfl) (fun _ => hi.not_holds hp rfl) fun _ _ _ hxs hcurs => by
    rcases hxs.next_cases (hcurs _ (hp ▸ mem_pushes.2 (.inl rfl))) hn with ⟨h0, hlast⟩ | ⟨h0, hnext⟩
    · simpa only [h0, if_true] using hlast
    · simpa only [h0, if_false] using hnext

/-- Taking the lock on an empty list: the node becomes its head. -/
theorem acquireEmpty {cls : TClassCounter} (hi : ChildRaceInv clsCounter w)
    (hp : w.pushes = pre ++ .wait node :: post) (hfree : ∀ t ∈ w.pushes, t.holds = false)
    (hcls : w.mem.classes.read clsCounter = some cls) (h0 : cls.child = 0) :
    ChildRaceInv clsCounter ⟨{ w.mem with classes := w.mem.classes.write clsCounter { cls with child := node } },
      pre ++ post, w.linked ++ [node]⟩ := by
  obtain ⟨cls', xs, hcls', hxs, hperm, -⟩ := hi.list
  obtain rfl := Option.some.inj (hcls.symm.trans hcls')
  obtain rfl : xs = [] := Chain.zero_iff.1 (h0 ▸ hxs)
  have hself : PushAt.wait node ∈ w.pushes := hp ▸ mem_pushes.2 (.inl rfl)
  obtain ⟨hnode0, nx, hnx, hnext⟩ := hi.unlinked _ hself
  have hrest : ∀ t ∈ pre ++ post, t.holds = false := fun t ht => hfree t (hp ▸ mem_pushes.2 (.inr ht))
  refine ⟨⟨{ cls with child := node }, [node], Region.read_write_self,
    Seg.singleton_iff.2 ⟨rfl, hnode0, nx, hnx, hnext⟩,
    by simp [List.perm_nil.1 hperm.symm], fun t ht => PushAt.cursor_of_holds_eq_false (hrest t ht)⟩,
    hi.nodup_link hp, fun t ht => hi.unlinked t (hp ▸ mem_pushes.2 (.inr ht)),
    countP_holds_le_one hrest⟩

/-- Linking the node after the last node of the list. -/
theorem link {counter : Ptr} {n : TChildClassCounter} (hi : ChildRaceInv clsCounter w)
    (hp : w.pushes = pre ++ .link node counter :: post) (hn : w.mem.children.read counter = some n) :
    ChildRaceInv clsCounter ⟨{ w.mem with children := w.mem.children.write counter { n with next := node } },
      pre ++ post, w.linked ++ [node]⟩ := by
  obtain ⟨cls, xs, hcls, hxs, hperm, hcurs⟩ := hi.list
  have hself : PushAt.link node counter ∈ w.pushes := hp ▸ mem_pushes.2 (.inl rfl)
  have hold : ∀ t ∈ pre ++ post, t ∈ w.pushes := fun t ht => hp ▸ mem_pushes.2 (.inr ht)
  have hrest := hi.not_holds hp rfl
  obtain ⟨l, rfl⟩ : ∃ l, xs = l ++ [counter] := hcurs _ hself
  obtain ⟨hnode0, nx, hnx, hnext⟩ := hi.unlinked _ hself
  have hlinked : ∀ t ∈ w.pushes, t.node ∉ l ++ [counter] := fun t ht hm =>
    hi.node_not_linked ht (hperm.mem_iff.1 hm)
  refine ⟨⟨cls, l ++ [counter, node], hcls, hxs.snoc hn hnx hnode0 hnext (hlinked _ hself),
    by simpa using hperm.append_right [node], fun t ht => PushAt.cursor_of_holds_eq_false (hrest t ht)⟩,
    hi.nodup_link hp, fun t ht => ?_,
    countP_holds_le_one hrest⟩
  have hc : t.node ≠ counter := fun e => hlinked t (hold t ht) (by simp [e])
  simpa only [Region.read_write_of_ne hc] using hi.unlinked t (hold t ht)

/-- A lookup while no push holds the lock: a miss changes nothing, and a promotion reorders the list and leaves the
nodes in flight alone. -/
theorem findChildClass {klassOop r : Ptr} {mem : Memory} (hi : ChildRaceInv clsCounter w)
    (hfree : ∀ t ∈ w.pushes, t.holds = false)
    (h : HeapStats.findChildClass objKlass w.mem clsCounter klassOop = some (mem, r)) :
    ChildRaceInv clsCounter ⟨mem, w.pushes, w.linked⟩ := by
  obtain ⟨cls, xs, hcls, hxs, hperm, -⟩ := hi.list
  rcases @findChildClass_result objKlass _ _ klassOop _ _ hcls hxs with
    ⟨-, hmiss⟩ | ⟨pre, n, post, m', xs', rfl, -, -, -, hfind, hr⟩
  · obtain rfl : mem = w.mem := (Prod.mk.inj (Option.some.inj (h.symm.trans hmiss))).1
    exact hi
  obtain rfl : mem = m' := (Prod.mk.inj (Option.some.inj (h.symm.trans hfind))).1
  obtain ⟨cls', hcls', hxs', -⟩ := hr.list
  refine ⟨⟨cls', xs', hcls', hxs', (hr.perm hxs).trans hperm, fun t ht => PushAt.cursor_of_holds_eq_false (hfree t ht)⟩,
    hi.nodup, fun t ht => ?_, hi.holder⟩
  obtain ⟨h0, nt, hnt, hnext⟩ := hi.unlinked t ht
  exact ⟨h0, nt, (hr.untouched _ fun hm => hi.node_not_linked ht (hperm.mem_iff.1 hm)).trans hnt, hnext⟩

/-- **Every step of a partitioned interleaving keeps the invariant.** -/
theorem step {w' : ChildWorld} (hi : ChildRaceInv clsCounter w) (h : ChildRaceStep objKlass clsCounter false w w') :
    ChildRaceInv clsCounter w' := by
  cases h with
  | alloc ha h h0 => exact hi.alloc ha h h0
  | acquire hp hfree hcls h0 => exact hi.acquire hp hfree hcls h0
  | acquireEmpty hp hfree hcls h0 => exact hi.acquireEmpty hp hfree hcls h0
  | walk hp hn => exact hi.walk hp hn
  | link hp hn => exact hi.link hp hn
  | findChildClass hov h => exact hi.findChildClass (hov.resolve_left Bool.false_ne_true) h

theorem run {w' : ChildWorld} (hi : ChildRaceInv clsCounter w)
    (hw : Relation.ReflTransGen (ChildRaceStep objKlass clsCounter false) w w') : ChildRaceInv clsCounter w' := by
  induction hw with
  | refl => exact hi
  | tail _ hs ih => exact ih.step hs

/-- **No deadlock**: while a call is in flight, the holder of the lock can take its next step, and when no call holds
the lock, a waiting one can take it. -/
theorem progress (hi : ChildRaceInv clsCounter w) (hne : w.pushes ≠ []) :
    ∃ w', ChildRaceStep objKlass clsCounter false w w' := by
  obtain ⟨cls, xs, hcls, hxs, -, hcurs⟩ := hi.list
  by_cases hheld : ∃ t ∈ w.pushes, t.holds = true
  · obtain ⟨t, ht, hth⟩ := hheld
    obtain ⟨pre, post, hp⟩ := List.append_of_mem ht
    cases t with
    | wait node => cases hth
    | walk node c =>
      obtain ⟨-, n, hn⟩ := Seg.live hxs (hcurs _ ht)
      exact ⟨_, .walk hp hn⟩
    | link node c =>
      obtain ⟨l, hl⟩ := hcurs _ ht
      obtain ⟨-, n, hn⟩ := Seg.live hxs (show c ∈ xs by simp [hl])
      exact ⟨_, .link hp hn⟩
  · have hfree : ∀ t ∈ w.pushes, t.holds = false := fun t ht => by simpa using fun h => hheld ⟨t, ht, h⟩
    obtain ⟨t, ht⟩ := List.exists_mem_of_ne_nil _ hne
    obtain ⟨pre, post, hp⟩ := List.append_of_mem ht
    cases t with
    | wait node =>
      by_cases h0 : cls.child = 0
      · exact ⟨_, .acquireEmpty hp hfree hcls h0⟩
      · exact ⟨_, .acquire hp hfree hcls h0⟩
    | walk _ _ | link _ _ => exact absurd (hfree _ ht) Bool.noConfusion

end ChildRaceInv

/-! ## A push alone -/

section alone

variable {objKlass clsCounter overlap} {m : Memory} {linked : List Ptr} {pre post : List PushAt} {node : Ptr}

/-- The holder's walk from `c` over the rest of the list stops at its last node. -/
theorem walk_to_last {c l : Ptr} {zs : List Ptr} (hc : Chain m.children c (zs ++ [l])) :
    Relation.ReflTransGen (ChildRaceStep objKlass clsCounter overlap) ⟨m, pre ++ .walk node c :: post, linked⟩
      ⟨m, pre ++ .link node l :: post, linked⟩ := by
  induction zs generalizing c with
  | nil =>
    obtain ⟨rfl, -, n, hn, hs⟩ := Seg.cons_iff.1 hc
    have hstep : ChildRaceStep objKlass clsCounter overlap ⟨m, pre ++ .walk node c :: post, linked⟩ _ := .walk rfl hn
    rw [if_pos (Seg.nil_iff.1 hs)] at hstep
    exact .single hstep
  | cons x zs ih =>
    obtain ⟨rfl, -, n, hn, hs⟩ := Seg.cons_iff.1 hc
    have hstep : ChildRaceStep objKlass clsCounter overlap ⟨m, pre ++ .walk node c :: post, linked⟩ _ := .walk rfl hn
    rw [if_neg (Chain.ne_zero hs (by simp))] at hstep
    exact .head hstep (ih hs)

/-- The locked part of a push that runs with no other step in between is `linkChildClass`. -/
theorem linkChildClass_race {m' : Memory} {cls : TClassCounter} {xs : List Ptr}
    (hfree : ∀ t ∈ pre ++ post, t.holds = false) (hcls : m.classes.read clsCounter = some cls)
    (hxs : Chain m.children cls.child xs) (h : linkChildClass m clsCounter node = some m') :
    Relation.ReflTransGen (ChildRaceStep objKlass clsCounter overlap) ⟨m, pre ++ .wait node :: post, linked⟩
      ⟨m', pre ++ post, linked ++ [node]⟩ := by
  have hall : ∀ t ∈ pre ++ .wait node :: post, t.holds = false := fun t ht =>
    (mem_pushes.1 ht).elim (fun e => e ▸ rfl) (hfree t)
  simp only [linkChildClass, hcls, Option.bind_eq_bind, Option.some_bind] at h
  split_ifs at h with h0
  · obtain rfl : { m with classes := m.classes.write clsCounter { cls with child := node } } = m' := by
      simpa [Region.modify_of_read hcls] using h
    exact .single (.acquireEmpty rfl hall hcls h0)
  rcases List.eq_nil_or_concat xs with rfl | ⟨zs, l, rfl⟩
  · exact absurd (Seg.nil_iff.1 hxs) h0
  rw [List.concat_eq_append] at hxs
  obtain ⟨-, nl, hnl⟩ := Seg.live hxs (List.mem_append_right zs (List.mem_singleton_self l))
  have hlast := lastChildClass_spec hxs m.children.size (by have := hxs.length_le; simp at this; omega)
  obtain rfl : { m with children := m.children.write l { nl with next := node } } = m' := by
    simpa [hlast, Region.modify_of_read hnl] using h
  exact .head (.acquire rfl hall hcls h0) ((walk_to_last hxs).tail (.link rfl hnl))

end alone

/-- **A push that runs alone is a run of the interleaved model.**  Its allocation, then its locked part with no step
of another call in between, end where `pushNewChildClass` does, with its node linked. -/
theorem pushNewChildClass_race {w : ChildWorld} {objData node : Ptr} {a : Alloc} {m' : Memory}
    {cls : TClassCounter} {xs : List Ptr} (ha : a.Fresh w.mem.children w.mem.counters)
    (hfree : ∀ t ∈ w.pushes, t.holds = false) (hcls : w.mem.classes.read clsCounter = some cls)
    (hxs : Chain w.mem.children cls.child xs) (h : pushNewChildClass w.mem clsCounter objData a = some (m', node))
    (h0 : node ≠ 0) :
    Relation.ReflTransGen (ChildRaceStep objKlass clsCounter overlap) w ⟨m', w.pushes, w.linked ++ [node]⟩ := by
  rw [pushNewChildClass_eq] at h
  obtain ⟨⟨m₁, node'⟩, hal, h⟩ := Option.bind_eq_some.1 h
  have h0' : node' ≠ 0 := by
    rintro rfl
    exact h0 (Prod.mk.inj (Option.some.inj h)).2.symm
  obtain ⟨m'', hl, he⟩ := Option.map_eq_some'.1 ((if_neg h0').symm.trans h)
  obtain ⟨rfl, rfl⟩ := Prod.mk.inj he
  obtain ⟨rfl, hcl, n, -, hch⟩ := allocChildClass_spec hal h0'
  have hxs₁ : Chain m₁.children cls.child xs := hch ▸ hxs.frame_of_read fun x hx =>
    Region.read_write_of_ne fun e => by obtain ⟨-, n, hn⟩ := Seg.live hxs hx; simp [e, ha.block h0] at hn
  have hrun : Relation.ReflTransGen (ChildRaceStep objKlass clsCounter overlap)
      ⟨m₁, [] ++ .wait a.block :: w.pushes, w.linked⟩ ⟨m'', [] ++ w.pushes, w.linked ++ [a.block]⟩ :=
    linkChildClass_race (by simpa using hfree) (hcl ▸ hcls) hxs₁ hl
  exact .head (.alloc ha hal h0) hrun

/-- A push of node `3` onto the list `[1, 2]` of class counter `7`, run alone, walks to node `2` and links after it. -/
theorem push_alone_links_after_last : ∃ m', pushNewChildClass ⟨∅, ((∅ : Region TChildClassCounter).write 1
      ⟨11, 101, 2, 0⟩).write 2 ⟨12, 102, 0, 0⟩, (∅ : Region TClassCounter).write 7 ⟨10, 1, 0, -1⟩⟩ 7 103 ⟨3, some 13⟩ =
        some (m', 3) ∧
      Relation.ReflTransGen (ChildRaceStep id 7 false) ⟨⟨∅, ((∅ : Region TChildClassCounter).write 1
        ⟨11, 101, 2, 0⟩).write 2 ⟨12, 102, 0, 0⟩, (∅ : Region TClassCounter).write 7 ⟨10, 1, 0, -1⟩⟩, [], [1, 2]⟩
        ⟨m', [], [1, 2, 3]⟩ := by
  refine ⟨_, rfl, @pushNewChildClass_race id 7 false _ 103 3 ⟨3, some 13⟩ _ _ [1, 2] ?_
    (fun _ h => absurd h (List.not_mem_nil _)) rfl ?_ rfl (by decide)⟩
  · exact ⟨fun _ => rfl, fun _ h => Option.some.inj h ▸ ⟨by decide, rfl⟩⟩
  · exact .cons (by decide) rfl (.cons (by decide) rfl (.nil 0))

/-- **The spin lock and the partition of the walkers keep every node.**  Start from a class counter whose child list
is a chain of the linked nodes, with no `pushNewChildClass` call in flight.  After any partitioned interleaving of
pushes and lookups, the list is a chain of exactly the nodes linked so far, each once; no node in flight is linked or
in flight twice; at most one call holds the spin lock; and while a call is in flight, some call can take its next
step.  Each lookup is one step, as with partitioned walkers, which never run two lookups on one list at once;
lookups that overlap each other are not covered. -/
theorem child_race_no_lost_node {w₀ w : ChildWorld} {cls : TClassCounter}
    (hcls : w₀.mem.classes.read clsCounter = some cls) (hxs : Chain w₀.mem.children cls.child w₀.linked)
    (hp : w₀.pushes = []) (hw : Relation.ReflTransGen (ChildRaceStep objKlass clsCounter false) w₀ w) :
    (∃ cls xs, w.mem.classes.read clsCounter = some cls ∧ Chain w.mem.children cls.child xs ∧ xs.Perm w.linked) ∧
      (w.linked ++ w.pushes.map PushAt.node).Nodup ∧ w.pushes.countP (·.holds) ≤ 1 ∧
      (w.pushes ≠ [] → ∃ w', ChildRaceStep objKlass clsCounter false w w') := by
  have hi := (ChildRaceInv.init hcls hxs hp).run hw
  obtain ⟨cls, xs, hcls, hxs, hperm, -⟩ := hi.list
  exact ⟨⟨cls, xs, hcls, hxs, hperm⟩, hi.nodup, hi.holder, hi.progress⟩

/-- Node `3` is pushed onto the list `[1, 2]` of class counter `7`, and a lookup of the class of node `2` runs after
the push's walk has reached node `2`: once the node is linked, or, with walkers that overlap, before the link. -/
theorem child_race_trace : ∃ (w₀ : ChildWorld) (cls : TClassCounter), w₀.mem.classes.read 7 = some cls ∧
    Chain w₀.mem.children cls.child w₀.linked ∧ w₀.pushes = [] ∧
    (∃ w, Relation.ReflTransGen (ChildRaceStep id 7 false) w₀ w ∧ w.linked = [1, 2, 3]) ∧
    ∃ w, Relation.ReflTransGen (ChildRaceStep id 7 true) w₀ w ∧ w.linked = [1, 2, 3] ∧
      ∃ cls, w.mem.classes.read 7 = some cls ∧ Chain w.mem.children cls.child [2, 3] := by
  have ha : ∀ c : Region TChildClassCounter, c.read 3 = none →
      (⟨3, some 13⟩ : Alloc).Fresh c (∅ : Region TObjectCounter) :=
    fun _ h => ⟨fun _ => h, fun _ h => Option.some.inj h ▸ ⟨by decide, rfl⟩⟩
  have hfree : ∀ t ∈ [PushAt.wait 3], t.holds = false := by simp [PushAt.holds]
  refine ⟨⟨⟨∅, ((∅ : Region TChildClassCounter).write 1 ⟨11, 101, 2, 0⟩).write 2 ⟨12, 102, 0, 0⟩,
    (∅ : Region TClassCounter).write 7 ⟨10, 1, 0, -1⟩⟩, [], [1, 2]⟩, _, rfl, ?_, rfl, ?_, ?_⟩
  · exact .cons (by decide) rfl (.cons (by decide) rfl (.nil 0))
  · exact ⟨_, .tail (.tail (.tail (.tail (.tail (.tail .refl
      (@ChildRaceStep.alloc id 7 false _ 103 ⟨3, some 13⟩ _ 3 (ha _ rfl) rfl (by decide)))
      (@ChildRaceStep.acquire id 7 false _ [] [] 3 _ rfl hfree rfl (by decide)))
      (@ChildRaceStep.walk id 7 false _ [] [] 3 1 _ rfl rfl))
      (@ChildRaceStep.walk id 7 false _ [] [] 3 2 _ rfl rfl))
      (@ChildRaceStep.link id 7 false _ [] [] 3 2 _ rfl rfl))
      (@ChildRaceStep.findChildClass id 7 false _ 102 _ _ (.inr fun _ h => absurd h (List.not_mem_nil _)) rfl), rfl⟩
  · exact ⟨_, .tail (.tail (.tail (.tail (.tail (.tail .refl
      (@ChildRaceStep.alloc id 7 true _ 103 ⟨3, some 13⟩ _ 3 (ha _ rfl) rfl (by decide)))
      (@ChildRaceStep.acquire id 7 true _ [] [] 3 _ rfl hfree rfl (by decide)))
      (@ChildRaceStep.walk id 7 true _ [] [] 3 1 _ rfl rfl))
      (@ChildRaceStep.walk id 7 true _ [] [] 3 2 _ rfl rfl))
      (@ChildRaceStep.findChildClass id 7 true _ 102 _ _ (.inl rfl) rfl))
      (@ChildRaceStep.link id 7 true _ [] [] 3 2 _ rfl rfl), rfl, _, rfl,
      .cons (by decide) rfl (.cons (by decide) rfl (.nil 0))⟩

/-- Partitioned, that interleaving ends with a chain of the three linked nodes.  With walkers that overlap, the lookup
promotes node `2` ahead of node `1` while the push is about to link after node `2`: the link then makes `2` the last
node but one, and node `1`, linked, is no longer on the list. -/
theorem child_race_needs_partition : ∃ (w₀ : ChildWorld) (cls : TClassCounter),
    w₀.mem.classes.read 7 = some cls ∧ Chain w₀.mem.children cls.child w₀.linked ∧ w₀.pushes = [] ∧
    (∃ w, Relation.ReflTransGen (ChildRaceStep id 7 false) w₀ w ∧ w.linked = [1, 2, 3] ∧
      ∃ cls xs, w.mem.classes.read 7 = some cls ∧ Chain w.mem.children cls.child xs ∧ xs.Perm w.linked) ∧
    ∃ w, Relation.ReflTransGen (ChildRaceStep id 7 true) w₀ w ∧ w.linked = [1, 2, 3] ∧
      ¬ ∃ cls xs, w.mem.classes.read 7 = some cls ∧ Chain w.mem.children cls.child xs ∧ xs.Perm w.linked :=
  let ⟨w₀, cls, hcls, hxs, hp, ⟨w, hw, hl⟩, w', hw', hl', cls', hcls', hxs'⟩ := child_race_trace
  ⟨w₀, cls, hcls, hxs, hp, ⟨w, hw, hl, (child_race_no_lost_node id 7 hcls hxs hp hw).1⟩, w', hw', hl',
    fun ⟨_, xs, hc, hxs'', hperm⟩ => by
      obtain rfl := Option.some.inj (hc.symm.trans hcls')
      obtain rfl := hxs'.unique hxs''
      simpa [hl'] using hperm.length_eq⟩

end HeapStats
