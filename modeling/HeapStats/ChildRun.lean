import HeapStats.Operations
import Mathlib.Logic.Relation
/-!
# ChildRun — the child list of one class counter over a whole run

The owner of a container calls `pushNewChildClass`, `findChildClass` and `clear` on a class counter in any order.
`ChildStep` is one such call, with the nodes the successful pushes returned so far as a ghost list; `ChildInv` is what
every run from an empty list keeps: the list is a chain of exactly the pushed nodes, and the nodes of each class stand
in the order they were pushed, because promotion only ever swaps a node with a neighbour of another class.  A lookup
then finds the earliest push of its class (`childList_multimap`).
-/
namespace HeapStats

/-- Two neighbours that a filter does not both keep can trade places under it. -/
theorem filter_swap {P : Ptr → Bool} {a b : Ptr} (l₁ l₂ : List Ptr) (h : ¬ (P a = true ∧ P b = true)) :
    (l₁ ++ b :: a :: l₂).filter P = (l₁ ++ a :: b :: l₂).filter P := by
  simp only [List.filter_append, List.filter_cons]
  cases ha : P a <;> cases hb : P b <;> simp_all

/-- The first element a predicate keeps is the head of the filter. -/
theorem find?_eq_head?_filter {α : Type} (p : α → Bool) : ∀ l : List α, l.find? p = (l.filter p).head?
  | [] => rfl
  | a :: l => by
    rw [List.find?_cons, List.filter_cons]
    cases p a
    · exact find?_eq_head?_filter p l
    · rfl

variable (objKlass : Ptr → Ptr)

/-- A node's class is read off its `objData`: stores that keep it keep the class. -/
theorem keyOf_congr {β : Type} {h h' : Region TChildClassCounter} {x : Ptr} {f : TChildClassCounter → β} (g : β → Ptr)
    (hg : ∀ n, g (f n) = n.objData) (hx : (h'.read x).map f = (h.read x).map f) :
    keyOf objKlass h' x = keyOf objKlass h x := by
  have := congrArg (Option.map (objKlass ∘ g)) hx
  simpa [Option.map_map, Function.comp_def, hg, keyOf] using this

/-- The child list of `clsCounter` in `c` is a chain of exactly the `pushed` nodes, each once, each still holding the
`objData` it was pushed with, and the nodes of each class stand in the order they were pushed. -/
structure ChildInv (clsCounter : Ptr) (c : TSnapShotContainer) (pushed : List (Ptr × Ptr)) : Prop where
  sound : Sound c
  list : ∃ cls xs, c.mem.classes.read clsCounter = some cls ∧ Chain c.mem.children cls.child xs ∧
    xs.Perm (pushed.map Prod.fst) ∧ ∀ k, xs.filter (fun x => keyOf objKlass c.mem.children x == some k) =
      (pushed.filter fun e => objKlass e.2 == k).map Prod.fst
  objData : ∀ e ∈ pushed, ∃ n, c.mem.children.read e.1 = some n ∧ n.objData = e.2

/-- One call on the child list of `clsCounter` by the container's single owner, with the nodes the successful
`pushNewChildClass` calls returned so far, each with the `objData` it was pushed with, oldest first. -/
inductive ChildStep (clsCounter : Ptr) :
    TSnapShotContainer × List (Ptr × Ptr) → TSnapShotContainer × List (Ptr × Ptr) → Prop
  | pushNewChildClass {c : TSnapShotContainer} {pushed : List (Ptr × Ptr)} {objData : Ptr} {a : Alloc} {m' : Memory}
      {node : Ptr} : a.Fresh c.mem.children c.mem.counters →
      HeapStats.pushNewChildClass c.mem clsCounter objData a = some (m', node) →
      ChildStep clsCounter (c, pushed) ({ c with mem := m' }, if node = 0 then pushed else pushed ++ [(node, objData)])
  | findChildClass {c : TSnapShotContainer} {pushed : List (Ptr × Ptr)} {klassOop : Ptr} {m' : Memory} {r : Ptr} :
      HeapStats.findChildClass objKlass c.mem clsCounter klassOop = some (m', r) →
      ChildStep clsCounter (c, pushed) ({ c with mem := m' }, pushed)
  | clear {c c' : TSnapShotContainer} {pushed : List (Ptr × Ptr)} {isForce : Bool} :
      c.clear isForce = some c' → ChildStep clsCounter (c, pushed) (c', pushed)

namespace ChildInv

variable {objKlass} {cc : Ptr} {c : TSnapShotContainer} {pushed : List (Ptr × Ptr)}

/-- On such a list `findChildClass` returns the first node pushed for the class, or `NULL` when none was. -/
theorem find_eq (hi : ChildInv objKlass cc c pushed) (k : Ptr) :
    ∃ m', findChildClass objKlass c.mem cc k =
      some (m', ((pushed.find? fun e => objKlass e.2 == k).map Prod.fst).getD 0) := by
  obtain ⟨cls, xs, hcls, hxs, -, hfilter⟩ := hi.list
  have hfind : xs.find? (fun x => keyOf objKlass c.mem.children x == some k) =
      (pushed.find? fun e => objKlass e.2 == k).map Prod.fst := by
    rw [find?_eq_head?_filter, hfilter k, List.head?_map, find?_eq_head?_filter]
  rcases @findChildClass_result objKlass _ _ k _ _ hcls hxs with
    ⟨hnone, hmiss⟩ | ⟨pre, n, post, m', xs', -, hsome, -, -, hhit, -⟩
  · exact ⟨_, by rw [hmiss, ← hfind, hnone]; rfl⟩
  · exact ⟨m', by rw [hhit, ← hfind, hsome]; rfl⟩

theorem push (hi : ChildInv objKlass cc c pushed) {objData : Ptr} {a : Alloc} {m' : Memory} {node : Ptr}
    (ha : a.Fresh c.mem.children c.mem.counters) (h : pushNewChildClass c.mem cc objData a = some (m', node)) :
    ChildInv objKlass cc { c with mem := m' } (if node = 0 then pushed else pushed ++ [(node, objData)]) := by
  have hsound : Sound { c with mem := m' } := @ContainerOp.run_sound objKlass (.pushNewChildClass cc objData a) c _
    hi.sound ha (by simp only [ContainerOp.run, h, Option.map_some'])
  obtain ⟨cls, xs, hcls, hxs, hperm, hfilter⟩ := hi.list
  rcases pushNewChildClass_result (fun cls hcls => hi.sound.wf.mem.chain cc cls hcls) ha.block h with
    ⟨rfl, rfl⟩ | ⟨counter, cls', xs', -, hb, hcls', hxs', rfl, hr⟩
  · exact hi
  obtain rfl : cls' = cls := Option.some.inj (hcls'.symm.trans hcls)
  obtain rfl := hxs'.unique hxs
  have hnode : ∀ x ∈ xs', x ≠ a.block := fun x hx e => by
    obtain ⟨-, n, hn⟩ := Seg.live hxs hx
    rw [e, hb.2] at hn; cases hn
  have hkey : ∀ x ∈ xs', keyOf objKlass m'.children x = keyOf objKlass c.mem.children x := fun x hx =>
    keyOf_congr objKlass (fun t => t.2.1) (fun _ => rfl) (hr.fields x (hnode x hx))
  rw [if_neg hb.1]
  obtain ⟨cls'', hcls'', -, hchain⟩ := hr.list
  refine ⟨hsound, ⟨cls'', xs' ++ [a.block], hcls'', hchain, ?_, fun k => ?_⟩, fun e he => ?_⟩
  · simpa using hperm.append_right [a.block]
  · rw [List.filter_append, List.filter_congr fun x hx => by rw [hkey x hx], hfilter k]
    simp [List.filter_cons, keyOf, hr.block]
    split <;> rfl
  · rcases List.mem_append.1 he with he | he
    · obtain ⟨n, hn, hod⟩ := hi.objData e he
      have := hr.fields e.1 (hnode _ (hperm.mem_iff.2 (List.mem_map_of_mem _ he)))
      rw [hn] at this
      obtain ⟨n', hn', he'⟩ := Option.map_eq_some'.1 this
      exact ⟨n', hn', by simp only [Prod.mk.injEq] at he'; rw [he'.2.1, hod]⟩
    · obtain rfl := List.mem_singleton.1 he
      exact ⟨_, hr.block, rfl⟩

theorem find (hi : ChildInv objKlass cc c pushed) {k : Ptr} {m' : Memory} {r : Ptr}
    (h : findChildClass objKlass c.mem cc k = some (m', r)) : ChildInv objKlass cc { c with mem := m' } pushed := by
  have hsound : Sound { c with mem := m' } := @ContainerOp.run_sound objKlass (.findChildClass cc k) c _ hi.sound
    trivial (by simp only [ContainerOp.run, h, Option.map_some'])
  obtain ⟨cls, xs, hcls, hxs, hperm, hfilter⟩ := hi.list
  rcases @findChildClass_result objKlass _ _ k _ _ hcls hxs with
    ⟨-, hmiss⟩ | ⟨pre, n, post, m'', xs', rfl, -, hpre, hkn, hhit, hr⟩
  · obtain ⟨rfl, -⟩ := Prod.mk.inj (Option.some.inj (h.symm.trans hmiss))
    exact hi
  obtain ⟨rfl, -⟩ := Prod.mk.inj (Option.some.inj (h.symm.trans hhit))
  have hkey : ∀ x, keyOf objKlass m'.children x = keyOf objKlass c.mem.children x := fun x =>
    keyOf_congr objKlass Prod.snd (fun _ => rfl) (hr.fields x)
  obtain ⟨cls', hcls', hchain, -, -⟩ := hr.list
  refine ⟨hsound, ⟨cls', xs', hcls', hchain, (hr.perm hxs).trans hperm, fun k' => ?_⟩, fun e he => ?_⟩
  · rw [List.filter_congr fun x _ => by rw [hkey x], ← hfilter k']
    -- the hit trades places at most with its predecessor, which is of another class
    rcases List.eq_nil_or_concat pre with rfl | ⟨pre', p, rfl⟩
    · rw [hr.order_first rfl]; rfl
    rw [List.concat_eq_append] at hxs hpre hr ⊢
    obtain ⟨-, np, hp⟩ := Seg.live hxs (show p ∈ pre' ++ [p] ++ n :: post by simp)
    obtain ⟨-, nn, hn⟩ := Seg.live hxs (show n ∈ pre' ++ [p] ++ n :: post by simp)
    rw [hr.order_pred pre' p np nn rfl hp hn]
    split_ifs
    · rw [List.append_assoc, List.singleton_append]
      refine filter_swap pre' post fun ⟨h1, h2⟩ => hpre p (by simp) ?_
      simp only [beq_iff_eq] at h1 h2
      rw [h1, ← h2, hkn]
    · rfl
  · obtain ⟨n, hn, hod⟩ := hi.objData e he
    have := hr.fields e.1
    rw [hn] at this
    obtain ⟨n', hn', he'⟩ := Option.map_eq_some'.1 this
    exact ⟨n', hn', by simp only [Prod.mk.injEq] at he'; rw [he'.2, hod]⟩

theorem clear (hi : ChildInv objKlass cc c pushed) {c' : TSnapShotContainer} {isForce : Bool}
    (h : c.clear isForce = some c') : ChildInv objKlass cc c' pushed := by
  have hsound := @ContainerOp.run_sound objKlass (.clear isForce) c c' hi.sound trivial h
  by_cases hrun : isForce = true ∨ c.isCleared = false
  · obtain ⟨mem, hc, hcl, -⟩ := clear_run hi.sound.wf hrun
    obtain rfl := Option.some.inj (h.symm.trans hc)
    obtain ⟨cls, xs, hcls, hxs, hperm, hfilter⟩ := hi.list
    have := hcl.shape cc
    rw [hcls] at this
    obtain ⟨cls', hcls', he⟩ := Option.map_eq_some'.1 this
    refine ⟨hsound, ⟨cls', xs, hcls', ?_, hperm, ?_⟩, ?_⟩
    · show Chain mem.children cls'.child xs
      have hch : cls'.child = cls.child := (Prod.ext_iff.1 he).2
      rw [hcl.children, hch]
      exact hxs
    · show ∀ k, xs.filter (fun x => keyOf objKlass mem.children x == some k) = _
      rw [hcl.children]
      exact hfilter
    · show ∀ e ∈ pushed, ∃ n, mem.children.read e.1 = some n ∧ n.objData = e.2
      rw [hcl.children]
      exact hi.objData
  · simp only [not_or, Bool.not_eq_true, Bool.not_eq_false] at hrun
    rw [clear_of_isCleared hrun.1 hrun.2] at h
    exact Option.some.inj h ▸ hi

theorem init (hs : Sound c) {cls : TClassCounter} (hcls : c.mem.classes.read cc = some cls) (hempty : cls.child = 0) :
    ChildInv objKlass cc c [] :=
  ⟨hs, ⟨cls, [], hcls, by rw [hempty]; exact .nil 0, .nil, fun _ => rfl⟩, fun _ he => (by cases he)⟩

theorem step {s s' : TSnapShotContainer × List (Ptr × Ptr)} (hi : ChildInv objKlass cc s.1 s.2)
    (h : ChildStep objKlass cc s s') : ChildInv objKlass cc s'.1 s'.2 := by
  cases h with
  | pushNewChildClass ha h => exact hi.push ha h
  | findChildClass h => exact hi.find h
  | clear h => exact hi.clear h

end ChildInv


/-- **The child list is an append-only multimap whose lookup finds the earliest push.**  Over every run of
`pushNewChildClass`, `findChildClass` and `clear` on a class counter whose list starts empty, the list is a
`NULL`-terminated chain of exactly the nodes the successful pushes returned, each once, and `findChildClass(k)`
returns the earliest pushed node whose `objData->klassOop` is `k`, or `NULL` when none was pushed: promotion never
changes the answer. -/
theorem childList_multimap (c₀ : TSnapShotContainer) (clsCounter : Ptr) (cls₀ : TClassCounter) (hs : Sound c₀)
    (hcls : c₀.mem.classes.read clsCounter = some cls₀) (hempty : cls₀.child = 0) (c : TSnapShotContainer)
    (pushed : List (Ptr × Ptr)) (hrun : Relation.ReflTransGen (ChildStep objKlass clsCounter) (c₀, []) (c, pushed)) :
    (∃ cls xs, c.mem.classes.read clsCounter = some cls ∧ Chain c.mem.children cls.child xs ∧ xs.Nodup ∧
      xs.Perm (pushed.map Prod.fst)) ∧
    ∀ k, ∃ m', findChildClass objKlass c.mem clsCounter k =
      some (m', ((pushed.find? fun e => objKlass e.2 == k).map Prod.fst).getD 0) := by
  have hi : ∀ s, Relation.ReflTransGen (ChildStep objKlass clsCounter) (c₀, []) s →
      ChildInv objKlass clsCounter s.1 s.2 := fun s h => by
    induction h with
    | refl => exact ChildInv.init hs hcls hempty
    | tail _ hstep ih => exact ih.step hstep
  replace hi := hi _ hrun
  obtain ⟨cls, xs, hcls', hxs, hperm, -⟩ := hi.list
  exact ⟨⟨cls, xs, hcls', hxs, hxs.nodup, hperm⟩, hi.find_eq⟩

/-- A class counter made by `pushNewClass` in a new container gets the nodes `1`, `2` and `3`, the first and the last
of class `101`; a lookup of class `102` promotes node `2` to the head, and a forced `clear` follows.  The list is then
`[2, 1, 3]`, and a lookup of class `101` still finds node `1`, the earlier of its two. -/
theorem childList_multimap_promoted :
    ∃ c, Relation.ReflTransGen (ChildStep id 7)
      (⟨(∅ : AList fun _ : Ptr => Ptr).insert 100 7, ⟨(∅ : Region TObjectCounter).write 10 ⟨0, 0⟩, ∅,
        (∅ : Region TClassCounter).write 7 ⟨10, 0, 0, -1⟩⟩, ⟨128, 0, 0, 0, 0, 0, fun _ => 0, 0, 0, 0, 0, 0, 0, 0, 0⟩,
        true⟩, []) (c, [(1, 101), (2, 102), (3, 101)]) ∧
    (∃ cls, c.mem.classes.read 7 = some cls ∧ Chain c.mem.children cls.child [2, 1, 3]) ∧
    (∃ cls xs, c.mem.classes.read 7 = some cls ∧ Chain c.mem.children cls.child xs ∧ xs.Nodup ∧
      xs.Perm [1, 2, 3]) ∧
    (∃ m', findChildClass id c.mem 7 101 = some (m', 1)) ∧ ∃ m', findChildClass id c.mem 7 102 = some (m', 2) := by
  let c₀ : TSnapShotContainer := ⟨(∅ : AList fun _ : Ptr => Ptr).insert 100 7,
    ⟨(∅ : Region TObjectCounter).write 10 ⟨0, 0⟩, ∅, (∅ : Region TClassCounter).write 7 ⟨10, 0, 0, -1⟩⟩,
    ⟨128, 0, 0, 0, 0, 0, fun _ => 0, 0, 0, 0, 0, 0, 0, 0, 0⟩, true⟩
  have hs : Sound c₀ := @ContainerOp.run_sound id (.pushNewClass 100 ⟨7, some 10⟩ true)
    (TSnapShotContainer.new false 0 ⟨128, 0, 0, 0, 0, 0, fun _ => 0, 0, 0, 0, 0, 0, 0, 0, 0⟩) _ (Sound.new _ _ _)
    ⟨fun _ => rfl, fun p hp => by cases hp; exact ⟨by decide, rfl⟩⟩ rfl
  have hrun : Relation.ReflTransGen (ChildStep id 7) (c₀, []) (_, [(1, 101), (2, 102), (3, 101)]) :=
    .tail (.tail (.tail (.tail (.single
    (@ChildStep.pushNewChildClass id 7 c₀ [] 101 ⟨1, some 11⟩ _ _ (Alloc.fresh_of_read rfl (by decide) rfl) rfl))
    (@ChildStep.pushNewChildClass id 7 _ _ 102 ⟨2, some 12⟩ _ _ (Alloc.fresh_of_read rfl (by decide) rfl) rfl))
    (@ChildStep.pushNewChildClass id 7 _ _ 101 ⟨3, some 13⟩ _ _ (Alloc.fresh_of_read rfl (by decide) rfl) rfl))
    (@ChildStep.findChildClass id 7 _ _ 102 _ _ rfl))
    (@ChildStep.clear id 7 _ _ _ true rfl)
  obtain ⟨hlist, hfind⟩ := childList_multimap id _ 7 _ hs rfl rfl _ _ hrun
  exact ⟨_, hrun, ⟨_, rfl, .cons (by decide) rfl (.cons (by decide) rfl (.cons (by decide) rfl (.nil 0)))⟩, hlist,
    hfind 101, hfind 102⟩

end HeapStats
