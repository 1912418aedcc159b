import HeapStats.Memory
/-!
# FindChildClass — the child lookup and its LFU step

`findChildClass(clsCounter, klassOop)` walks the child list of a class counter with three pointers
(`morePrevCounter`, `prevCounter`, `counter`) until it finds the node whose class is `klassOop`.  On a hit it counts
the call and, when the predecessor was called no more often, relinks the list so that the hit moves one place toward
the head.  The search is `searchChildClass`, the relinking `promoteChildClass`; both read the heap through pointers
and fail (`none`) exactly where the C code would dereference a dangling pointer.

The class a node counts is `objData->klassOop`; the `TObjectData` records belong to the class container and are only
read here, so their `klassOop` fields are the parameter `objKlass`.
-/
namespace HeapStats

variable (objKlass : Ptr → Ptr)

/-- The class a child node counts, `counter->objData->klassOop`. -/
def keyOf (h : Region TChildClassCounter) (x : Ptr) : Option Ptr := (h.read x).map fun n => objKlass n.objData

/-- The `while` loop of `findChildClass`: from `counter`, with its two predecessors, the node whose class is
`klassOop` (`some (some _)`), or `some none` once `next` is `NULL`.  Each round reads one node, so `fuel` bounds the
rounds; running out is the loop spinning on a cycle. -/
def searchChildClass (h : Region TChildClassCounter) (klassOop : Ptr) :
    Nat → Ptr → Ptr → Ptr → Option (Option (Ptr × Ptr × Ptr))
  | 0, _, _, _ => none
  | fuel + 1, morePrevCounter, prevCounter, counter =>
    (h.read counter).bind fun n =>
      if objKlass n.objData = klassOop then some (some (morePrevCounter, prevCounter, counter))
      else if n.next = 0 then some none
      else searchChildClass h klassOop fuel prevCounter counter n.next

/-- The LFU step after a hit on `counter`: `counter->callCount++`, and when `prevCounter` was called no more often,
`counter` is linked in front of it, after `morePrevCounter` or at the head of the list. -/
def promoteChildClass (m : Memory) (clsCounter morePrevCounter prevCounter counter : Ptr) : Option Memory := do
  let children ← m.children.modify counter fun n => { n with callCount := n.callCount + 1 }
  let n ← children.read counter
  if prevCounter ≠ 0 then
    let p ← children.read prevCounter
    if p.callCount ≤ n.callCount then
      let children ← children.modify prevCounter fun p => { p with next := n.next }
      let m ← if morePrevCounter ≠ 0 then
          (children.modify morePrevCounter fun q => { q with next := counter }).map fun children => { m with children }
        else
          (m.classes.modify clsCounter fun c => { c with child := counter }).map fun classes =>
            { m with children, classes }
      let children ← m.children.modify counter fun c => { c with next := prevCounter }
      return { m with children }
    else return { m with children }
  else return { m with children }

/-- `findChildClass(clsCounter, klassOop)`: the memory after the call and the node found (`0` for `NULL`).  The loop
walks with the region's size as its bound, which no chain exceeds (`Chain.length_le`). -/
def findChildClass (m : Memory) (clsCounter klassOop : Ptr) : Option (Memory × Ptr) :=
  (m.classes.read clsCounter).bind fun cls =>
    if cls.child = 0 then some (m, 0)
    else (searchChildClass objKlass m.children klassOop m.children.size 0 0 cls.child).bind fun
      | none => some (m, 0)
      | some (morePrevCounter, prevCounter, counter) =>
        (promoteChildClass m clsCounter morePrevCounter prevCounter counter).map (·, counter)

/-! ## The search -/

/-- `(morePrevCounter, prevCounter)` once the loop has stepped over the nodes `pre`. -/
def lastTwo : Ptr → Ptr → List Ptr → Ptr × Ptr
  | morePrev, prev, [] => (morePrev, prev)
  | _, prev, x :: xs => lastTwo prev x xs

theorem lastTwo_concat (mp p a : Ptr) : ∀ xs : List Ptr, lastTwo mp p (xs ++ [a]) = ((lastTwo mp p xs).2, a)
  | [] => rfl
  | x :: xs => lastTwo_concat p x a xs

variable {objKlass} {h : Region TChildClassCounter} {k c mp p n : Ptr} {xs : List Ptr}

/-- **A miss**: on a chain where no node has class `k`, the loop reaches `NULL`. -/
theorem searchChildClass_miss (hc : Chain h c xs) (hne : xs ≠ []) (hk : ∀ x ∈ xs, keyOf objKlass h x ≠ some k) :
    ∀ fuel, xs.length ≤ fuel → searchChildClass objKlass h k fuel mp p c = some none := by
  induction xs generalizing c mp p with
  | nil => exact absurd rfl hne
  | cons x xs ih =>
    obtain ⟨rfl, -, nx, hx, hs⟩ := Seg.cons_iff.1 hc
    have hkx : objKlass nx.objData ≠ k := fun e => hk c (List.mem_cons_self c xs) (by simp [keyOf, hx, e])
    rintro (_ | fuel) hf
    · simp at hf
    simp only [searchChildClass, hx, Option.some_bind, if_neg hkx]
    split
    · rfl
    · rename_i h0
      refine ih hs ?_ (fun y hy => hk y (List.mem_cons_of_mem c hy)) fuel (by simpa using hf)
      rintro rfl
      exact h0 (Seg.nil_iff.1 hs)

/-- **A hit**: the loop stops at the first node of class `k`, with the two nodes before it. -/
theorem searchChildClass_hit {pre : List Ptr} {nn : TChildClassCounter} (hs : Seg h c pre n) (hn0 : n ≠ 0)
    (hn : h.read n = some nn) (hkn : objKlass nn.objData = k) (hk : ∀ x ∈ pre, keyOf objKlass h x ≠ some k) :
    ∀ fuel, pre.length < fuel →
      searchChildClass objKlass h k fuel mp p c = some (some ((lastTwo mp p pre).1, (lastTwo mp p pre).2, n)) := by
  induction pre generalizing c mp p with
  | nil =>
    obtain rfl := Seg.nil_iff.1 hs
    rintro (_ | fuel) hf
    · simp at hf
    simp [searchChildClass, hn, hkn, lastTwo]
  | cons x pre ih =>
    obtain ⟨rfl, -, nx, hx, hs⟩ := Seg.cons_iff.1 hs
    have hkx : objKlass nx.objData ≠ k := fun e => hk c (List.mem_cons_self c pre) (by simp [keyOf, hx, e])
    rintro (_ | fuel) hf
    · simp at hf
    have hnext : nx.next ≠ 0 := by
      cases pre with
      | nil => rw [Seg.nil_iff.1 hs]; exact hn0
      | cons y pre => exact (Seg.cons_iff.1 hs).1 ▸ (Seg.cons_iff.1 hs).2.1
    simp only [searchChildClass, hx, Option.some_bind, if_neg hkx, if_neg hnext, lastTwo]
    exact ih hs (fun y hy => hk y (List.mem_cons_of_mem c hy)) fuel (by simpa using hf)

/-! ## The LFU step -/

section promote

variable {m : Memory} {cls mp p n : Ptr} {nn np nq : TChildClassCounter} {cc : TClassCounter}

theorem promoteChildClass_first (hn : m.children.read n = some nn) (mp : Ptr) :
    promoteChildClass m cls mp 0 n =
      some { m with children := m.children.write n { nn with callCount := nn.callCount + 1 } } := by
  simp [promoteChildClass, Region.modify, hn]

theorem promoteChildClass_stay (hn : m.children.read n = some nn) (hp : m.children.read p = some np) (hpn : p ≠ n)
    (hlt : ¬ np.callCount ≤ nn.callCount + 1) :
    promoteChildClass m cls mp p n =
      some { m with children := m.children.write n { nn with callCount := nn.callCount + 1 } } := by
  by_cases hp0 : p = 0
  · subst hp0; exact promoteChildClass_first hn mp
  simp [promoteChildClass, Region.modify, hn, hp, hpn, hp0, hlt]

theorem promoteChildClass_swap_head (hn : m.children.read n = some nn) (hp : m.children.read p = some np)
    (hpn : p ≠ n) (hp0 : p ≠ 0) (hc : m.classes.read cls = some cc) (hle : np.callCount ≤ nn.callCount + 1) :
    promoteChildClass m cls 0 p n = some
      { m with
        children := ((m.children.write n { nn with callCount := nn.callCount + 1 }).write p
          { np with next := nn.next }).write n { nn with callCount := nn.callCount + 1, next := p }
        classes := m.classes.write cls { cc with child := n } } := by
  simp [promoteChildClass, Region.modify, hn, hp, hpn, hp0, hle, hc, Ne.symm hpn]

theorem promoteChildClass_swap (hn : m.children.read n = some nn) (hp : m.children.read p = some np)
    (hq : m.children.read mp = some nq) (hpn : p ≠ n) (hqn : mp ≠ n) (hqp : mp ≠ p) (hp0 : p ≠ 0) (hq0 : mp ≠ 0)
    (hle : np.callCount ≤ nn.callCount + 1) :
    promoteChildClass m cls mp p n = some
      { m with
        children := (((m.children.write n { nn with callCount := nn.callCount + 1 }).write p
          { np with next := nn.next }).write mp { nq with next := n }).write n
          { nn with callCount := nn.callCount + 1, next := p } } := by
  simp [promoteChildClass, Region.modify, hn, hp, hq, hpn, hp0, hq0, hle, hqn, hqp, Ne.symm hpn, Ne.symm hqn]

end promote

section find

variable {m : Memory} {clsCounter k n : Ptr} {cls : TClassCounter} {xs pre post : List Ptr} {nn : TChildClassCounter}

/-- **`findChildClass` on a miss** returns `NULL` and writes nothing. -/
theorem findChildClass_miss (hcls : m.classes.read clsCounter = some cls) (hxs : Chain m.children cls.child xs)
    (hk : ∀ x ∈ xs, keyOf objKlass m.children x ≠ some k) : findChildClass objKlass m clsCounter k = some (m, 0) := by
  by_cases hne : xs = []
  · subst hne
    simp [findChildClass, hcls, Seg.nil_iff.1 hxs]
  · simp [findChildClass, hcls, hxs.ne_zero hne, searchChildClass_miss hxs hne hk _ hxs.length_le]

/-- On a hit, `findChildClass` is the LFU step on the node found, with the loop's two trailing pointers. -/
theorem findChildClass_hit (hcls : m.classes.read clsCounter = some cls)
    (hxs : Chain m.children cls.child (pre ++ n :: post)) (hk : ∀ x ∈ pre, keyOf objKlass m.children x ≠ some k)
    (hn : m.children.read n = some nn) (hkn : objKlass nn.objData = k) :
    findChildClass objKlass m clsCounter k =
      (promoteChildClass m clsCounter (lastTwo 0 0 pre).1 (lastTwo 0 0 pre).2 n).map (·, n) := by
  obtain ⟨q, hpre, hpost⟩ := Seg.of_append hxs
  obtain ⟨rfl, hn0, -⟩ := Seg.cons_iff.1 hpost
  have hlen := hxs.length_le
  simp only [List.length_append, List.length_cons] at hlen
  simp [findChildClass, hcls, hxs.ne_zero (by simp),
    searchChildClass_hit hpre hn0 hn hkn hk m.children.size (by omega)]

/-! ## What a hit leaves -/

/-- What a hit on `n`, found after `pre` and followed by `post` in the child list of `clsCounter` (whose record is
`cls`), leaves behind: the memory `m'`, in which that child list is `xs'`. -/
structure HitResult (m : Memory) (clsCounter : Ptr) (cls : TClassCounter) (pre : List Ptr) (n : Ptr)
    (post : List Ptr) (m' : Memory) (xs' : List Ptr) : Prop where
  order_first : pre = [] → xs' = n :: post
  order_pred : ∀ pre' p np nn, pre = pre' ++ [p] → m.children.read p = some np → m.children.read n = some nn →
    xs' = if np.callCount ≤ nn.callCount + 1 then pre' ++ n :: p :: post else pre ++ n :: post
  list : ∃ cls', m'.classes.read clsCounter = some cls' ∧ Chain m'.children cls'.child xs' ∧
    cls' = { cls with child := cls'.child } ∧ (cls'.child ≠ cls.child → pre.length = 1 ∧ cls'.child = n)
  counters : m'.counters = m.counters
  classes : ∀ c, c ≠ clsCounter → m'.classes.read c = m.classes.read c
  untouched : ∀ x, x ∉ pre ++ n :: post → m'.children.read x = m.children.read x
  fields : ∀ x, (m'.children.read x).map (fun c => (c.counter, c.objData)) =
    (m.children.read x).map (fun c => (c.counter, c.objData))
  callCount : ∀ x, (m'.children.read x).map (·.callCount) =
    (m.children.read x).map (fun c => if x = n then c.callCount + 1 else c.callCount)

/-- Counting the hit without relinking. -/
theorem hitResult_count (hcls : m.classes.read clsCounter = some cls)
    (hxs : Chain m.children cls.child (pre ++ n :: post)) (hn : m.children.read n = some nn)
    (hstay : pre = [] ∨ ∃ pre' p np, pre = pre' ++ [p] ∧ m.children.read p = some np ∧
      ¬ np.callCount ≤ nn.callCount + 1) :
    HitResult m clsCounter cls pre n post
      { m with children := m.children.write n { nn with callCount := nn.callCount + 1 } } (pre ++ n :: post) where
  order_first h := by simp [h]
  order_pred pre' p np nn' hp hnp hnn := by
    obtain rfl : nn' = nn := Option.some.inj (hnn.symm.trans hn)
    rcases hstay with rfl | ⟨pre'', p', np', hp', hnp', hlt⟩
    · simp at hp
    · obtain ⟨rfl, hpp⟩ := List.append_inj' (hp.symm.trans hp') rfl
      obtain rfl : p = p' := List.singleton_inj.1 hpp
      obtain rfl : np = np' := Option.some.inj (hnp.symm.trans hnp')
      simp [hlt, hp']
  list := ⟨cls, by simpa using hcls, hxs.frame fun x _ => by
      by_cases hx : x = n
      · subst hx; simp [hn]
      · simp [hx], rfl, fun h => absurd rfl h⟩
  counters := rfl
  classes _ _ := rfl
  untouched x hx := by
    have : x ≠ n := fun e => hx (e ▸ List.mem_append_right _ (List.mem_cons_self _ _))
    simp [this]
  fields x := by by_cases hx : x = n <;> simp [hx, hn]
  callCount x := by by_cases hx : x = n <;> simp [hx, hn]

/-- A hit keeps every node's counter and record, and counts one call on `n`. -/
theorem fields_callCount {m m' : Memory} {n : Ptr}
    (h : ∀ x, (m'.children.read x).map (fun c => (c.counter, c.objData, c.callCount)) =
      (m.children.read x).map (fun c => (c.counter, c.objData, if x = n then c.callCount + 1 else c.callCount))) :
    (∀ x, (m'.children.read x).map (fun c => (c.counter, c.objData)) =
      (m.children.read x).map (fun c => (c.counter, c.objData))) ∧
    ∀ x, (m'.children.read x).map (·.callCount) =
      (m.children.read x).map (fun c => if x = n then c.callCount + 1 else c.callCount) :=
  ⟨fun x => by simpa [Option.map_map, Function.comp_def] using congrArg (Option.map fun t => (t.1, t.2.1)) (h x),
    fun x => by simpa [Option.map_map, Function.comp_def] using congrArg (Option.map fun t => t.2.2) (h x)⟩

/-- The hit is second and moves to the head. -/
theorem hitResult_swap_head {p : Ptr} {np : TChildClassCounter}
    (hxs : Chain m.children cls.child ([p] ++ n :: post)) (hn : m.children.read n = some nn)
    (hp : m.children.read p = some np) (hle : np.callCount ≤ nn.callCount + 1) :
    HitResult m clsCounter cls [p] n post
      { m with
        children := ((m.children.write n { nn with callCount := nn.callCount + 1 }).write p
          { np with next := nn.next }).write n { nn with callCount := nn.callCount + 1, next := p }
        classes := m.classes.write clsCounter { cls with child := n } } (n :: p :: post) := by
  obtain ⟨hhead, hp0, np', hp', hs⟩ := Seg.cons_iff.1 hxs
  obtain rfl : np = np' := Option.some.inj (hp.symm.trans hp')
  obtain ⟨hpn, -, nn', hn', hpost⟩ := Seg.cons_iff.1 hs
  obtain rfl : nn = nn' := Option.some.inj (hn.symm.trans hn')
  have hnd := hxs.nodup
  simp only [List.singleton_append, List.nodup_cons, List.mem_cons, not_or] at hnd
  obtain ⟨⟨hpn', hpost_p⟩, hpost_n, -⟩ := hnd
  have hn0 : n ≠ 0 := (Seg.live hxs (by simp)).1
  refine ⟨fun h => by simp at h, fun pre₁ p₁ np₁ nn₁ h hnp hnn => ?_, ⟨_, Region.read_write_self, ?_, rfl,
    fun _ => ⟨rfl, rfl⟩⟩, rfl, fun c hc => Region.read_write_of_ne hc, fun x hx => ?_, (fields_callCount ?keep).1,
    (fields_callCount ?keep).2⟩
  · obtain ⟨rfl, hpp⟩ := List.append_inj' (h.symm.trans (List.nil_append [p]).symm) rfl
    obtain rfl : p₁ = p := List.singleton_inj.1 hpp
    obtain rfl : np₁ = np := Option.some.inj (hnp.symm.trans hp)
    obtain rfl : nn₁ = nn := Option.some.inj (hnn.symm.trans hn)
    simp [hle]
  · refine .cons hn0 Region.read_write_self
      (.cons hp0 ((Region.read_write_of_ne hpn').trans Region.read_write_self) (hpost.frame_of_read fun x hx => ?_))
    have : x ≠ p := fun e => hpost_p (e ▸ hx)
    have : x ≠ n := fun e => hpost_n (e ▸ hx)
    simp [*]
  · simp only [List.singleton_append, List.mem_cons, not_or] at hx
    simp [hx.1, hx.2.1]
  · intro x
    simp only [Region.read_write]
    split_ifs <;> simp [*]

/-- The hit moves in front of its predecessor, behind `morePrevCounter`. -/
theorem hitResult_swap {pre' : List Ptr} {b p : Ptr} {nb np : TChildClassCounter}
    (hcls : m.classes.read clsCounter = some cls) (hxs : Chain m.children cls.child ((pre' ++ [b, p]) ++ n :: post))
    (hn : m.children.read n = some nn) (hp : m.children.read p = some np) (hb : m.children.read b = some nb)
    (hle : np.callCount ≤ nn.callCount + 1) :
    HitResult m clsCounter cls (pre' ++ [b, p]) n post
      { m with
        children := (((m.children.write n { nn with callCount := nn.callCount + 1 }).write p
          { np with next := nn.next }).write b { nb with next := n }).write n
          { nn with callCount := nn.callCount + 1, next := p } } ((pre' ++ [b]) ++ n :: p :: post) := by
  have hxs' : Chain m.children cls.child (pre' ++ b :: p :: n :: post) := by simpa using hxs
  obtain ⟨q, hpre, hs⟩ := Seg.of_append hxs'
  obtain ⟨hqb, hb0, nb', hb', hs⟩ := Seg.cons_iff.1 hs
  rw [hqb] at hpre
  obtain rfl : nb = nb' := Option.some.inj (hb.symm.trans hb')
  obtain ⟨hbp, hp0, np', hp', hs⟩ := Seg.cons_iff.1 hs
  obtain rfl : np = np' := Option.some.inj (hp.symm.trans hp')
  obtain ⟨hpn, hn0, nn', hn', hpost⟩ := Seg.cons_iff.1 hs
  obtain rfl : nn = nn' := Option.some.inj (hn.symm.trans hn')
  have hnd := hxs.nodup
  simp only [List.append_assoc, List.cons_append, List.singleton_append, List.nil_append, List.nodup_append,
    List.nodup_cons, List.mem_cons, not_or, List.disjoint_cons_right] at hnd
  obtain ⟨-, ⟨⟨hbp', hbn', hbpost⟩, ⟨hpn', hppost⟩, hnpost, -⟩, ⟨hpre_b, hpre_p, hpre_n, -⟩⟩ := hnd
  refine ⟨fun h => by simp at h, fun pre₁ p₁ np₁ nn₁ h hnp hnn => ?_, ⟨cls, hcls, ?_, rfl, fun h => absurd rfl h⟩,
    rfl, fun _ _ => rfl, fun x hx => ?_, (fields_callCount ?keep).1, (fields_callCount ?keep).2⟩
  · obtain ⟨rfl, hpp⟩ := List.append_inj' (h.symm.trans (List.append_assoc pre' [b] [p]).symm) rfl
    obtain rfl : p₁ = p := List.singleton_inj.1 hpp
    obtain rfl : np₁ = np := Option.some.inj (hnp.symm.trans hp)
    obtain rfl : nn₁ = nn := Option.some.inj (hnn.symm.trans hn)
    simp [hle]
  · rw [List.append_assoc]
    refine hpre.frame_of_read (fun x hx => ?_) |>.append (.cons hb0 ((Region.read_write_of_ne hbn').trans
      Region.read_write_self) (.cons hn0 Region.read_write_self (.cons hp0 ((Region.read_write_of_ne hpn').trans
      ((Region.read_write_of_ne (Ne.symm hbp')).trans Region.read_write_self)) (hpost.frame_of_read fun x hx => ?_))))
    · have : x ≠ b := fun e => hpre_b (e ▸ hx)
      have : x ≠ p := fun e => hpre_p (e ▸ hx)
      have : x ≠ n := fun e => hpre_n (e ▸ hx)
      simp [*]
    · have : x ≠ b := fun e => hbpost (e ▸ hx)
      have : x ≠ p := fun e => hppost (e ▸ hx)
      have : x ≠ n := fun e => hnpost (e ▸ hx)
      simp [*]
  · simp only [List.append_assoc, List.cons_append, List.singleton_append, List.nil_append, List.mem_append,
      List.mem_cons, not_or] at hx
    simp [hx.2.1, hx.2.2.1, hx.2.2.2.1]
  · intro x
    simp only [Region.read_write]
    split_ifs <;> simp [*]

/-- **What a hit does**: the LFU step in one of its three shapes. -/
theorem findChildClass_hit_result (hcls : m.classes.read clsCounter = some cls)
    (hxs : Chain m.children cls.child (pre ++ n :: post)) (hk : ∀ x ∈ pre, keyOf objKlass m.children x ≠ some k)
    (hkn : keyOf objKlass m.children n = some k) :
    ∃ m' xs', findChildClass objKlass m clsCounter k = some (m', n) ∧ HitResult m clsCounter cls pre n post m' xs' := by
  obtain ⟨nn, hn, hkn⟩ := Option.map_eq_some'.1 hkn
  rw [findChildClass_hit hcls hxs hk hn hkn]
  have hnd := hxs.nodup
  rcases List.eq_nil_or_concat pre with rfl | ⟨pre', p, rfl⟩
  · refine ⟨_, _, ?_, hitResult_count hcls hxs hn (.inl rfl)⟩
    simp [lastTwo, promoteChildClass_first hn]
  rw [List.concat_eq_append] at hxs hnd ⊢
  obtain ⟨hp0, np, hp⟩ := Seg.live hxs (show p ∈ pre' ++ [p] ++ n :: post by simp)
  have hpn : p ≠ n := by rintro rfl; simp [List.nodup_append] at hnd
  rw [lastTwo_concat]
  by_cases hle : np.callCount ≤ nn.callCount + 1
  swap
  · refine ⟨_, _, ?_, hitResult_count hcls hxs hn (.inr ⟨pre', p, np, rfl, hp, hle⟩)⟩
    simp [promoteChildClass_stay hn hp hpn hle]
  rcases List.eq_nil_or_concat pre' with rfl | ⟨pre'', b, rfl⟩
  · refine ⟨_, _, ?_, hitResult_swap_head hxs hn hp hle⟩
    simp [lastTwo, promoteChildClass_swap_head hn hp hpn hp0 hcls hle]
  rw [List.concat_eq_append] at hxs hnd ⊢
  rw [lastTwo_concat]
  obtain ⟨hb0, nb, hb⟩ := Seg.live hxs (show b ∈ pre'' ++ [b] ++ [p] ++ n :: post by simp)
  have hbn : b ≠ n := by rintro rfl; simp [List.nodup_append] at hnd
  have hbp : b ≠ p := by rintro rfl; simp [List.nodup_append] at hnd
  have hxs' : Chain m.children cls.child ((pre'' ++ [b, p]) ++ n :: post) := by simpa using hxs
  have := hitResult_swap hcls hxs' hn hp hb hle
  simp only [List.append_assoc, List.singleton_append, List.cons_append] at this ⊢
  refine ⟨_, _, ?_, this⟩
  simp [promoteChildClass_swap hn hp hb hpn hbn hbp hp0 hb0 hle]

/-- A hit reorders the child list and nothing more. -/
theorem HitResult.perm {m' : Memory} {xs' : List Ptr} (hr : HitResult m clsCounter cls pre n post m' xs')
    (hxs : Chain m.children cls.child (pre ++ n :: post)) : xs'.Perm (pre ++ n :: post) := by
  rcases List.eq_nil_or_concat pre with rfl | ⟨pre', p, rfl⟩
  · rw [hr.order_first rfl]; rfl
  rw [List.concat_eq_append] at hxs hr ⊢
  obtain ⟨-, np, hp⟩ := Seg.live hxs (show p ∈ pre' ++ [p] ++ n :: post by simp)
  obtain ⟨-, nn, hn⟩ := Seg.live hxs (show n ∈ pre' ++ [p] ++ n :: post by simp)
  rw [hr.order_pred pre' p np nn rfl hp hn]
  split_ifs
  · simpa using (List.Perm.swap p n post).append_left pre'
  · rfl

/-- **Every `findChildClass` on a child list** is a miss that writes nothing or a hit on the first node of the class. -/
theorem findChildClass_result (hcls : m.classes.read clsCounter = some cls) (hxs : Chain m.children cls.child xs) :
    (xs.find? (fun x => keyOf objKlass m.children x == some k) = none ∧
      findChildClass objKlass m clsCounter k = some (m, 0)) ∨
    ∃ pre n post m' xs', xs = pre ++ n :: post ∧
      xs.find? (fun x => keyOf objKlass m.children x == some k) = some n ∧
      (∀ x ∈ pre, keyOf objKlass m.children x ≠ some k) ∧ keyOf objKlass m.children n = some k ∧
      findChildClass objKlass m clsCounter k = some (m', n) ∧ HitResult m clsCounter cls pre n post m' xs' := by
  cases hf : xs.find? (fun x => keyOf objKlass m.children x == some k) with
  | none =>
    refine .inl ⟨rfl, findChildClass_miss hcls hxs fun x hx => ?_⟩
    simpa using List.find?_eq_none.1 hf x hx
  | some n =>
    obtain ⟨hn, pre, post, rfl, hpre⟩ := List.find?_eq_some.1 hf
    have hk : ∀ x ∈ pre, keyOf objKlass m.children x ≠ some k := fun x hx => by simpa using hpre x hx
    have hkn : keyOf objKlass m.children n = some k := by simpa using hn
    obtain ⟨m', xs', hfind, hr⟩ := findChildClass_hit_result hcls hxs hk hkn
    exact .inr ⟨pre, n, post, m', xs', rfl, rfl, hk, hkn, hfind, hr⟩

end find

/-- **One `findChildClass` call is one LFU step.**  On a child list `xs` of any length: a miss returns `NULL` and
writes nothing.  A hit on the first node `n` of class `k` returns `n` and counts one call on it and on no other node;
the list stays as it was, except that `n` trades places with its predecessor `p` when `p` was called no more often
than `n` now is; and `clsCounter->child` changes only when `n` was second and moves to the head. -/
theorem findChildClass_lfu_step (m : Memory) (clsCounter k : Ptr) (cls : TClassCounter) (xs : List Ptr)
    (hcls : m.classes.read clsCounter = some cls) (hxs : Chain m.children cls.child xs) :
    ((∀ x ∈ xs, keyOf objKlass m.children x ≠ some k) → findChildClass objKlass m clsCounter k = some (m, 0)) ∧
    ∀ pre n post, xs = pre ++ n :: post → (∀ x ∈ pre, keyOf objKlass m.children x ≠ some k) →
      keyOf objKlass m.children n = some k →
      ∃ m' cls', findChildClass objKlass m clsCounter k = some (m', n) ∧ m'.classes.read clsCounter = some cls' ∧
        (∀ x, (m'.children.read x).map (·.callCount) =
          (m.children.read x).map (fun c => if x = n then c.callCount + 1 else c.callCount)) ∧
        (∀ pre' p np nn, pre = pre' ++ [p] → m.children.read p = some np → m.children.read n = some nn →
          np.callCount ≤ nn.callCount + 1 → Chain m'.children cls'.child (pre' ++ n :: p :: post)) ∧
        ((pre = [] ∨ ∃ pre' p np nn, pre = pre' ++ [p] ∧ m.children.read p = some np ∧
          m.children.read n = some nn ∧ ¬ np.callCount ≤ nn.callCount + 1) → Chain m'.children cls'.child xs) ∧
        (cls'.child ≠ cls.child → pre.length = 1 ∧ cls'.child = n) := by
  refine ⟨findChildClass_miss hcls hxs, fun pre n post hsplit hk hkn => ?_⟩
  subst hsplit
  obtain ⟨m', xs', hfind, hr⟩ := findChildClass_hit_result hcls hxs hk hkn
  obtain ⟨cls', hcls', hchain, -, hchild⟩ := hr.list
  refine ⟨m', cls', hfind, hcls', hr.callCount, fun pre' p np nn hp hnp hnn hle => ?_, fun hstay => ?_, hchild⟩
  · rwa [hr.order_pred pre' p np nn hp hnp hnn, if_pos hle] at hchain
  · rcases hstay with rfl | ⟨pre', p, np, nn, hp, hnp, hnn, hlt⟩
    · rwa [hr.order_first rfl] at hchain
    · rwa [hr.order_pred pre' p np nn hp hnp hnn, if_neg hlt] at hchain

/-- Three nodes of classes 101, 102, 103 (`objKlass = id`), never called: finding 103 moves it ahead of 102. -/
theorem findChildClass_third_moves_up :
    ∃ m' cls', findChildClass id ⟨∅, (((∅ : Region TChildClassCounter).write 3 ⟨13, 103, 0, 0⟩).write 2
        ⟨12, 102, 3, 0⟩).write 1 ⟨11, 101, 2, 0⟩, (∅ : Region TClassCounter).write 7 ⟨10, 1, 0, -1⟩⟩ 7 103 =
      some (m', 3) ∧ m'.classes.read 7 = some cls' ∧ Chain m'.children cls'.child [1, 3, 2] := by
  let m : Memory := ⟨∅, (((∅ : Region TChildClassCounter).write 3 ⟨13, 103, 0, 0⟩).write 2
    ⟨12, 102, 3, 0⟩).write 1 ⟨11, 101, 2, 0⟩, (∅ : Region TClassCounter).write 7 ⟨10, 1, 0, -1⟩⟩
  obtain ⟨-, hhit⟩ := @findChildClass_lfu_step id m 7 103 ⟨10, 1, 0, -1⟩ [1, 2, 3] rfl
    (.cons (by decide) rfl (.cons (by decide) rfl (.cons (by decide) rfl (.nil 0))))
  obtain ⟨m', cls', hfind, hcls, -, hswap, -, -⟩ := hhit [1, 2] 3 [] rfl (by decide) rfl
  exact ⟨m', cls', hfind, hcls, hswap [1] 2 ⟨12, 102, 3, 0⟩ ⟨13, 103, 0, 0⟩ rfl rfl rfl (by decide)⟩

end HeapStats
