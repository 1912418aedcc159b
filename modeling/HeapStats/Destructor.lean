import HeapStats.Ownership
/-!
# Destructor — `~TSnapShotContainer`

The destructor walks the map and, for each class counter it binds, frees the nodes of its child list with their
counters, then the class counter's counter and the class counter itself.  `free` of a block that is not live, a
double free among them, is undefined behaviour: the model gives `none` there, as it does for a read of a freed node.

On a sound container whose counter blocks have one owner each, the destructor never fails, and it frees exactly the
blocks reachable from the map (`destructor_spec`): one class counter at a time (`Freed.step`), whose child list is
freed by the inner loop (`freeChildren_spec`).  A class counter that the map no longer binds is not freed: a second
`pushNewClass` of a bound record leaks the first one (`pushNewClass_rebind_leaks`).
-/
namespace HeapStats

/-- `free(p)` as a call: nothing for `NULL`, and undefined (`none`) for a block that is not live. -/
def freeBlock {α : Type} (r : Region α) (p : Ptr) : Option (Region α) :=
  if p = 0 then some r else (r.read p).map fun _ => r.free p

/-- The destructor's `while` loop over one child list, from `counter`: read the node, free its counter, then the
node.  Each round frees one node, so `fuel` bounds the rounds. -/
def freeChildren (m : Memory) : Nat → Ptr → Option Memory
  | 0, _ => none
  | fuel + 1, counter =>
    if counter = 0 then some m
    else (m.children.read counter).bind fun n => do
      let counters ← freeBlock m.counters n.counter
      let children ← freeBlock m.children counter
      freeChildren { m with counters, children } fuel n.next

/-- The destructor's body for one entry of the map: the child list of the class counter, its counter, and the class
counter itself.  The loop walks with the region's size and one more round for the `NULL` at the end. -/
def deleteClassCounter (m : Memory) (clsCounter : Ptr) : Option Memory :=
  if clsCounter = 0 then some m
  else (m.classes.read clsCounter).bind fun cls => do
    let m ← freeChildren m (m.children.size + 1) cls.child
    let counters ← freeBlock m.counters cls.counter
    let classes ← freeBlock m.classes clsCounter
    return { m with counters, classes }

/-- `~TSnapShotContainer()`, over the map's entries in the order the model keeps them: the container's blocks after
it; `none` for undefined behaviour. -/
def TSnapShotContainer.destructor (c : TSnapShotContainer) : Option Memory :=
  c.counterMap.entries.foldlM (fun m e => deleteClassCounter m e.2) c.mem

/-! ## Freeing blocks -/

namespace Region

variable {α : Type} {r : Region α} {p : Ptr}

/-- `free` of the blocks `l`, one after another. -/
def freeAll (r : Region α) (l : List Ptr) : Region α := l.foldl free r

theorem read_freeAll : ∀ (l : List Ptr) (r : Region α) (x : Ptr),
    (r.freeAll l).read x = if x ∈ l then none else r.read x
  | [], r, x => by simp [freeAll]
  | p :: l, r, x => by
    rw [freeAll, List.foldl_cons, ← freeAll, read_freeAll l]
    by_cases hx : x ∈ l
    · simp [hx]
    · by_cases hxp : x = p <;> simp [hx, hxp]

theorem freeAll_append (l₁ l₂ : List Ptr) : r.freeAll (l₁ ++ l₂) = (r.freeAll l₁).freeAll l₂ :=
  List.foldl_append _ _ _ _

theorem freeBlock_of_isSome (hp : p ≠ 0) (h : (r.read p).isSome) : freeBlock r p = some (r.free p) := by
  obtain ⟨v, hv⟩ := Option.isSome_iff_exists.1 h
  simp [freeBlock, hp, hv]

end Region

/-- The counters of the child nodes `xs`, in order. -/
def nodeCounters (h : Region TChildClassCounter) (xs : List Ptr) : List Ptr :=
  xs.filterMap fun x => (h.read x).map (·.counter)

theorem nodeCounters_congr {h h' : Region TChildClassCounter} {xs : List Ptr} (hr : ∀ x ∈ xs, h'.read x = h.read x) :
    nodeCounters h' xs = nodeCounters h xs :=
  List.filterMap_congr fun x hx => by rw [hr x hx]

/-! ## The inner loop -/

/-- **The inner loop frees a child list and its counters**, when they are live and distinct. -/
theorem freeChildren_spec {m : Memory} {c : Ptr} {xs : List Ptr} (hc : Chain m.children c xs)
    (hnd : (nodeCounters m.children xs).Nodup)
    (hlive : ∀ y ∈ nodeCounters m.children xs, y ≠ 0 ∧ (m.counters.read y).isSome) :
    ∀ fuel, xs.length < fuel → freeChildren m fuel c = some { m with
      counters := m.counters.freeAll (nodeCounters m.children xs), children := m.children.freeAll xs } := by
  induction xs generalizing m c with
  | nil =>
    obtain rfl := Seg.nil_iff.1 hc
    rintro (_ | fuel) hf
    · simp at hf
    · simp [freeChildren, Region.freeAll, nodeCounters]
  | cons x xs ih =>
    obtain ⟨rfl, hx0, n, hn, hs⟩ := Seg.cons_iff.1 hc
    rintro (_ | fuel) hf
    · simp at hf
    have hxs : c ∉ xs := (List.nodup_cons.1 hc.nodup).1
    have hcnt : nodeCounters m.children (c :: xs) = n.counter :: nodeCounters m.children xs := by
      simp [nodeCounters, hn]
    rw [hcnt, List.nodup_cons] at hnd
    have hread : ∀ y ∈ xs, (m.children.free c).read y = m.children.read y := fun y hy =>
      Region.read_free_of_ne fun e => hxs (e ▸ hy)
    have hcongr := nodeCounters_congr hread
    obtain ⟨hn0, hnlive⟩ := hlive n.counter (by rw [hcnt]; exact List.mem_cons_self _ _)
    have hrest := @ih { m with counters := m.counters.free n.counter, children := m.children.free c } n.next
      (hs.frame_of_read hread) (by rw [hcongr]; exact hnd.2) (fun y hy => by
        rw [hcongr] at hy
        obtain ⟨hy0, hylive⟩ := hlive y (by rw [hcnt]; exact List.mem_cons_of_mem _ hy)
        exact ⟨hy0, by rw [Region.read_free_of_ne fun e : y = n.counter => hnd.1 (e ▸ hy)]; exact hylive⟩)
      fuel (by simpa using hf)
    have hclive : (m.children.read c).isSome := by simp [hn]
    simp only [freeChildren, if_neg hx0, hn, Option.some_bind, Option.bind_eq_bind,
      Region.freeBlock_of_isSome hn0 hnlive, Region.freeBlock_of_isSome hx0 hclive, hrest, hcongr, hcnt]
    rfl

/-- **The body for one class counter frees its child list, the counters of its nodes and its own, and itself**, when
those counters are live and distinct. -/
theorem deleteClassCounter_spec {m : Memory} {p : Ptr} {cls : TClassCounter} {xs : List Ptr} (hp : p ≠ 0)
    (hcls : m.classes.read p = some cls) (hxs : Chain m.children cls.child xs)
    (hnd : (nodeCounters m.children xs ++ [cls.counter]).Nodup)
    (hlive : ∀ y ∈ nodeCounters m.children xs ++ [cls.counter], y ≠ 0 ∧ (m.counters.read y).isSome) :
    deleteClassCounter m p = some
      { counters := m.counters.freeAll (nodeCounters m.children xs ++ [cls.counter])
        children := m.children.freeAll xs
        classes := m.classes.free p } := by
  obtain ⟨hnd₁, -, hdisj⟩ := List.nodup_append.1 hnd
  have hloop := freeChildren_spec hxs hnd₁ (fun y hy => hlive y (List.mem_append_left _ hy))
    (m.children.size + 1) (by have := hxs.length_le; omega)
  obtain ⟨hc0, hclive⟩ := hlive cls.counter (by simp)
  have hcfree : ((m.counters.freeAll (nodeCounters m.children xs)).read cls.counter).isSome := by
    rw [Region.read_freeAll, if_neg fun h => hdisj h (List.mem_singleton_self _)]
    exact hclive
  have hplive : (m.classes.read p).isSome := by simp [hcls]
  simp only [deleteClassCounter, if_neg hp, hcls, Option.some_bind, Option.bind_eq_bind, hloop,
    Region.freeBlock_of_isSome hc0 hcfree, Region.freeBlock_of_isSome hp hplive, Region.freeAll_append]
  rfl

/-! ## The whole destructor -/

/-- `x` is a node of the child list of the class counter at `p`. -/
def NodeOf (M : Memory) (p x : Ptr) : Prop :=
  p ≠ 0 ∧ ∃ r xs, M.classes.read p = some r ∧ Chain M.children r.child xs ∧ x ∈ xs

/-- The owners the class counter at `p` frees: itself and the nodes of its child list. -/
def OwnedBy (M : Memory) (p : Ptr) : Ptr ⊕ Ptr → Prop
  | .inl q => q = p ∧ p ≠ 0
  | .inr x => NodeOf M p x

/-- `y` is the counter of the class counter at `p` or of a node of its child list. -/
def CounterOf (M : Memory) (p y : Ptr) : Prop := ∃ o, OwnedBy M p o ∧ counterOf M o = some y

/-- `r'` is `r` with the blocks that satisfy `P` freed. -/
def Region.FreedBy {α : Type} (r r' : Region α) (P : Ptr → Prop) : Prop :=
  ∀ x, (P x → r'.read x = none) ∧ (¬ P x → r'.read x = r.read x)

/-- `m` is `M` after the destructor's body ran for the class counters `ps`: the class counters, the nodes of their
child lists, and the counters of both are freed, and every other block is as it was. -/
structure Freed (M m : Memory) (ps : List Ptr) : Prop where
  classes : M.classes.FreedBy m.classes fun p => p ≠ 0 ∧ p ∈ ps
  children : M.children.FreedBy m.children fun x => ∃ p ∈ ps, NodeOf M p x
  counters : M.counters.FreedBy m.counters fun y => ∃ p ∈ ps, CounterOf M p y

namespace Region

variable {α : Type} {r r' : Region α} {P Q : Ptr → Prop}

theorem FreedBy.congr (h : r.FreedBy r' P) (hPQ : ∀ x, P x ↔ Q x) : r.FreedBy r' Q := fun x => by
  rw [← hPQ x]; exact h x

/-- Freeing the blocks `l`, which satisfy `Q`, after those that satisfy `P`. -/
theorem FreedBy.freeAll (h : r.FreedBy r' P) {l : List Ptr} (hl : ∀ x, x ∈ l ↔ Q x) :
    r.FreedBy (r'.freeAll l) fun x => Q x ∨ P x := fun x => by
  rw [read_freeAll]
  by_cases hx : x ∈ l
  · simp [hx, (hl x).1 hx]
  · have hq : ¬ Q x := fun hq => hx ((hl x).2 hq)
    simp only [if_neg hx, hq, false_or]
    exact h x

end Region

section destructor

variable {M : Memory}

theorem NodeOf.iff {p : Ptr} {cls : TClassCounter} {xs : List Ptr} (hp : p ≠ 0) (hcls : M.classes.read p = some cls)
    (hxs : Chain M.children cls.child xs) (x : Ptr) : NodeOf M p x ↔ x ∈ xs := by
  refine ⟨fun ⟨_, r, ys, hr, hys, hx⟩ => ?_, fun hx => ⟨hp, cls, xs, hcls, hxs, hx⟩⟩
  obtain rfl := Option.some.inj (hr.symm.trans hcls)
  exact hys.unique hxs ▸ hx

/-- The child lists of distinct class counters share no node. -/
theorem NodeOf.unique (hwf : MemWF M) {p q x : Ptr} (hp : NodeOf M p x) (hq : NodeOf M q x) : p = q := by
  obtain ⟨-, r, xs, hr, hxs, hx⟩ := hp
  obtain ⟨-, s, ys, hs, hys, hy⟩ := hq
  by_contra hpq
  exact hwf.disjoint p q r s xs ys hpq hr hs hxs hys hx hy

/-- Each owner is freed by at most one class counter. -/
theorem OwnedBy.unique (hwf : MemWF M) {p q : Ptr} : ∀ {o : Ptr ⊕ Ptr}, OwnedBy M p o → OwnedBy M q o → p = q
  | .inl _, ⟨hp, _⟩, ⟨hq, _⟩ => hp.symm.trans hq
  | .inr _, hp, hq => NodeOf.unique hwf hp hq

theorem CounterOf.ne_zero {p y : Ptr} : CounterOf M p y → p ≠ 0
  | ⟨.inl _, ⟨_, hp⟩, _⟩ => hp
  | ⟨.inr _, hn, _⟩ => hn.1

/-- Each counter block is freed by at most one class counter. -/
theorem CounterOf.unique (hwf : MemWF M) (ho : MemOwned M) {p q y : Ptr} (hp : CounterOf M p y)
    (hq : CounterOf M q y) : p = q := by
  obtain ⟨o, hop, hoy⟩ := hp
  obtain ⟨o', hoq, hoy'⟩ := hq
  obtain rfl := ho.unique o o' y hoy hoy'
  exact hop.unique hwf hoq

/-- The counters the body frees for `p` are those that `p` and its nodes own, each once. -/
theorem counters_of_class (ho : MemOwned M) {p : Ptr} {cls : TClassCounter} {xs : List Ptr}
    (hp : p ≠ 0) (hcls : M.classes.read p = some cls) (hxs : Chain M.children cls.child xs) :
    (∀ y, y ∈ nodeCounters M.children xs ++ [cls.counter] ↔ CounterOf M p y) ∧
      (nodeCounters M.children xs ++ [cls.counter]).Nodup := by
  have hcp : counterOf M (.inl p) = some cls.counter := by simp [counterOf, hcls]
  have hmem : ∀ y, y ∈ nodeCounters M.children xs ↔ ∃ x ∈ xs, counterOf M (.inr x) = some y := fun y =>
    List.mem_filterMap
  refine ⟨fun y => ?_, List.nodup_append.2 ⟨?_, List.nodup_singleton _, fun y hy hy' => ?_⟩⟩
  · rw [List.mem_append, hmem, List.mem_singleton]
    constructor
    · rintro (⟨x, hx, hxy⟩ | rfl)
      · exact ⟨.inr x, (NodeOf.iff hp hcls hxs x).2 hx, hxy⟩
      · exact ⟨.inl p, ⟨rfl, hp⟩, hcp⟩
    · rintro ⟨_ | x, hown, hoy⟩
      · obtain ⟨rfl, -⟩ := hown
        exact .inr (Option.some.inj (hcp.symm.trans hoy)).symm
      · exact .inl ⟨x, (NodeOf.iff hp hcls hxs x).1 hown, hoy⟩
  · exact hxs.nodup.filterMap fun a a' y ha ha' => Sum.inr.inj (ho.unique _ _ y ha ha')
  · obtain ⟨x, -, hxy⟩ := (hmem y).1 hy
    rw [List.mem_singleton.1 hy'] at hxy
    cases ho.unique _ _ _ hxy hcp

theorem Freed.congr {m : Memory} {ps ps' : List Ptr} (hf : Freed M m ps) (h : ∀ p, p ∈ ps ↔ p ∈ ps') :
    Freed M m ps' :=
  ⟨hf.classes.congr fun x => by rw [h], hf.children.congr fun x => by simp only [h],
    hf.counters.congr fun y => by simp only [h]⟩

/-- **One entry of the map.**  After the body ran for the class counters `ps`, it runs for `p`, live and bound under
no earlier entry: it frees the blocks of `p` and keeps every other. -/
theorem Freed.step (hwf : MemWF M) (ho : MemOwned M) {m : Memory} {ps : List Ptr} {p : Ptr} (hf : Freed M m ps)
    (hp : p ≠ 0 → p ∉ ps ∧ (M.classes.read p).isSome) :
    ∃ m', deleteClassCounter m p = some m' ∧ Freed M m' (p :: ps) := by
  by_cases hp0 : p = 0
  · -- `NULL` entries are skipped
    subst hp0
    have hnode : ∀ x, ¬ NodeOf M 0 x := fun x h => h.1 rfl
    have hcnt : ∀ y, ¬ CounterOf M 0 y := fun y h => h.ne_zero rfl
    refine ⟨m, by simp [deleteClassCounter], hf.classes.congr fun x => ?_,
      hf.children.congr fun x => by simp [hnode], hf.counters.congr fun y => by simp [hcnt]⟩
    by_cases hx : x = 0 <;> simp [hx]
  obtain ⟨hpps, hlive⟩ := hp hp0
  obtain ⟨cls, hcls⟩ := Option.isSome_iff_exists.1 hlive
  obtain ⟨xs, hxs⟩ := hwf.chain p cls hcls
  obtain ⟨hmem, hnd⟩ := counters_of_class ho hp0 hcls hxs
  -- nothing of `p` was freed before
  have hnode : ∀ x ∈ xs, ¬ ∃ q ∈ ps, NodeOf M q x := fun x hx ⟨q, hq, hqx⟩ =>
    hpps (NodeOf.unique hwf ((NodeOf.iff hp0 hcls hxs x).2 hx) hqx ▸ hq)
  have hread : ∀ x ∈ xs, m.children.read x = M.children.read x := fun x hx => (hf.children x).2 (hnode x hx)
  have hcongr := nodeCounters_congr hread
  have hlive' : ∀ y ∈ nodeCounters m.children xs ++ [cls.counter], y ≠ 0 ∧ (m.counters.read y).isSome :=
    fun y hy => by
      rw [hcongr] at hy
      obtain ⟨o, hown, hoy⟩ := (hmem y).1 hy
      have hyl := counterOf_live hwf hoy
      refine ⟨fun e => (by rw [e, ho.null] at hyl; cases hyl), ?_⟩
      rw [(hf.counters y).2 fun ⟨q, hq, hqy⟩ => hpps (CounterOf.unique hwf ho ⟨o, hown, hoy⟩ hqy ▸ hq)]
      exact hyl
  refine ⟨_, deleteClassCounter_spec hp0 (((hf.classes p).2 fun h => hpps h.2).trans hcls)
    (hxs.frame_of_read hread) (by rw [hcongr]; exact hnd) hlive', ?_, ?_, ?_⟩
  · refine (hf.classes.freeAll (show ∀ x, x ∈ [p] ↔ x = p from fun _ => List.mem_singleton)).congr fun x => ?_
    by_cases hx : x = p <;> simp [hx, hp0]
  · exact (hf.children.freeAll fun x => (NodeOf.iff hp0 hcls hxs x).symm).congr fun x => by simp
  · have hl : ∀ y, y ∈ nodeCounters m.children xs ++ [cls.counter] ↔ CounterOf M p y := fun y => by
      rw [hcongr]; exact hmem y
    exact (hf.counters.freeAll hl).congr fun y => by simp

/-- The destructor's loop over the entries `L`, after the class counters `ps`. -/
theorem Freed.foldlM (hwf : MemWF M) (ho : MemOwned M) : ∀ (L : List (Σ _ : Ptr, Ptr)) {m : Memory} {ps : List Ptr},
    Freed M m ps → (∀ e ∈ L, e.2 ≠ 0 → e.2 ∉ ps ∧ (M.classes.read e.2).isSome) →
    (L.map (·.2)).Pairwise (fun p q => p ≠ 0 → p ≠ q) →
    ∃ m', L.foldlM (fun m e => deleteClassCounter m e.2) m = some m' ∧ Freed M m' (L.map (·.2) ++ ps)
  | [], m, _, hf, _, _ => ⟨m, rfl, hf⟩
  | e :: L, _, ps, hf, hL, hpw => by
    obtain ⟨m₁, h₁, hf₁⟩ := hf.step hwf ho (hL e (List.mem_cons_self _ _))
    rw [List.map_cons, List.pairwise_cons] at hpw
    -- the later entries bind other class counters
    have hL' : ∀ e' ∈ L, e'.2 ≠ 0 → e'.2 ∉ e.2 :: ps ∧ (M.classes.read e'.2).isSome := fun e' he' h0 => by
      obtain ⟨hps, hlive⟩ := hL e' (List.mem_cons_of_mem e he') h0
      refine ⟨fun h => ?_, hlive⟩
      rcases List.mem_cons.1 h with h | h
      · by_cases he0 : e.2 = 0
        · exact h0 (h.trans he0)
        · exact hpw.1 e'.2 (List.mem_map_of_mem _ he') he0 h.symm
      · exact hps h
    obtain ⟨m', h', hf'⟩ := Freed.foldlM hwf ho L hf₁ hL' hpw.2
    exact ⟨m', by simp [List.foldlM_cons, h₁, h'], hf'.congr fun q => List.perm_middle.mem_iff⟩

end destructor

theorem mem_values {s : AList fun _ : Ptr => Ptr} {p : Ptr} :
    p ∈ s.entries.map (·.2) ↔ ∃ k, s.lookup k = some p := by
  constructor
  · intro h
    obtain ⟨e, he, rfl⟩ := List.mem_map.1 h
    exact ⟨e.1, AList.mem_lookup_iff.2 he⟩
  · rintro ⟨k, hk⟩
    exact List.mem_map.2 ⟨⟨k, p⟩, AList.mem_lookup_iff.1 hk, rfl⟩

/-- **The destructor frees every block reachable from the map, once, and no other.**  On every sound container whose
counter blocks have one owner each, `~TSnapShotContainer` has no undefined behaviour (no double free, and no read of
a freed node), and afterwards the class counters the map binds, the nodes of their child lists, and the counters of
both are freed, while every other block is as it was. -/
theorem destructor_spec (c : TSnapShotContainer) (hs : Sound c) (ho : Owned c) :
    ∃ m', c.destructor = some m' ∧ Freed c.mem m' (c.counterMap.entries.map (·.2)) := by
  have hinit : Freed c.mem c.mem [] :=
    ⟨fun _ => ⟨fun h => absurd h.2 (List.not_mem_nil _), fun _ => rfl⟩,
      fun _ => ⟨fun ⟨_, h, _⟩ => absurd h (List.not_mem_nil _), fun _ => rfl⟩,
      fun _ => ⟨fun ⟨_, h, _⟩ => absurd h (List.not_mem_nil _), fun _ => rfl⟩⟩
  have hpw : (c.counterMap.entries.map (·.2)).Pairwise (fun p q => p ≠ 0 → p ≠ q) := by
    have hkeys : c.counterMap.entries.Pairwise fun e e' => e.1 ≠ e'.1 := List.pairwise_map.1 c.counterMap.nodupKeys
    rw [List.pairwise_map]
    refine hkeys.imp_of_mem fun {e e'} he he' hne h0 he2 => hne ?_
    exact ho.map e.1 e'.1 e.2 (AList.mem_lookup_iff.2 he) (he2 ▸ AList.mem_lookup_iff.2 he') h0
  obtain ⟨m', h, hf⟩ := Freed.foldlM hs.wf.mem ho.mem c.counterMap.entries hinit
    (fun e he h0 => ⟨List.not_mem_nil _, hs.wf.bound e.1 e.2 (AList.mem_lookup_iff.2 he) h0⟩) hpw
  exact ⟨m', h, by simpa using hf⟩

/-- **A second `pushNewClass` of a bound record leaks the first class counter.**  On a sound container whose counter
blocks have one owner each, where `objData` is bound, a `pushNewClass(objData)` that gets its blocks rebinds the
record to the new class counter, and the destructor then leaves the class counter it was bound to live: no entry of
the map reaches it. -/
theorem pushNewClass_rebind_leaks {c : TSnapShotContainer} {objData counter : Ptr} {a : Alloc} (hs : Sound c)
    (ho : Owned c) (hbound : c.findClass objData ≠ 0) (hb : c.mem.classes.Fresh a.block)
    (hc : c.mem.counters.Fresh counter) (hac : a.counter = some counter) (insertOk : Bool) :
    ∃ c' m', c.pushNewClass objData a insertOk = some (c', a.block) ∧ c'.findClass objData = a.block ∧
      c'.destructor = some m' ∧
      m'.classes.read (c.findClass objData) = c.mem.classes.read (c.findClass objData) ∧
      (m'.classes.read (c.findClass objData)).isSome := by
  have hk := TSnapShotContainer.lookup_findClass hbound
  have hlive := hs.wf.bound objData _ hk hbound
  have hpb : c.findClass objData ≠ a.block := fun e => by rw [e, hb.2] at hlive; cases hlive
  obtain ⟨m', hd, hf⟩ := destructor_spec _ (hs.install hb.2 objData counter) (ho.install hs.wf hb hc)
  -- no entry of the new map reaches the old class counter
  have hunb : ¬ (c.findClass objData ≠ 0 ∧
      c.findClass objData ∈ (c.counterMap.insert objData a.block).entries.map (·.2)) := fun ⟨_, hmem⟩ => by
    obtain ⟨k, hk'⟩ := mem_values.1 hmem
    by_cases hko : k = objData
    · subst hko
      rw [AList.lookup_insert] at hk'
      exact hpb (Option.some.inj hk').symm
    · rw [AList.lookup_insert_ne hko] at hk'
      exact hko (ho.map k objData _ hk' hk hbound)
  have hread := ((hf.classes _).2 hunb).trans (Region.read_write_of_ne hpb)
  exact ⟨_, m', TSnapShotContainer.pushNewClass_ok hb.1 hac (.inl (AList.lookup_isSome.1 (by rw [hk]; rfl))),
    by simp [TSnapShotContainer.findClass], hd, hread, hread ▸ hlive⟩

/-- Record `100` pushed into a new container gets class counter `1`; a second push of it rebinds it to class counter
`3`, and the destructor leaves class counter `1` live. -/
theorem rebind_leaks_second_push :
    ∃ c c' m', (TSnapShotContainer.new false 0 ⟨0, 0, 0, 0, 0, 0, fun _ => 0, 0, 0, 0, 0, 0, 0, 0, 0⟩).pushNewClass 100
        ⟨1, some 2⟩ true = some (c, 1) ∧ c.pushNewClass 100 ⟨3, some 4⟩ true = some (c', 3) ∧
      c'.findClass 100 = 3 ∧ c'.destructor = some m' ∧ m'.classes.read 1 = c.mem.classes.read 1 ∧
      (m'.classes.read 1).isSome := by
  have hrun : ContainerOp.run id (TSnapShotContainer.new false 0 ⟨0, 0, 0, 0, 0, 0, fun _ => 0, 0, 0, 0, 0, 0, 0, 0, 0⟩)
      (.pushNewClass 100 ⟨1, some 2⟩ true) = some _ := rfl
  have hok : (ContainerOp.pushNewClass 100 ⟨1, some 2⟩ true).Allowed
      (TSnapShotContainer.new false 0 ⟨0, 0, 0, 0, 0, 0, fun _ => 0, 0, 0, 0, 0, 0, 0, 0, 0⟩) :=
    ⟨fun _ => rfl, fun p hp => by cases hp; exact ⟨by decide, rfl⟩⟩
  obtain ⟨c', m', hpush, hfind, hd, hread, hlive⟩ := @pushNewClass_rebind_leaks _ 100 4 ⟨3, some 4⟩
    (ContainerOp.run_sound (Sound.new _ _ _) hok hrun)
    (ContainerOp.run_owned (Sound.new _ _ _) (Owned.new _ _ _) hok hrun)
    (by decide) ⟨by decide, rfl⟩ ⟨by decide, rfl⟩ rfl true
  exact ⟨_, c', m', rfl, hpush, hfind, hd, hread, hlive⟩

end HeapStats
