import Mathlib

/-! Doubly linked rings in two arrays, and loops that follow one of the two. -/

namespace CloudLab.Links

variable {α σ : Type*} {next prev next' prev' : α → α} {a b head x : α} {nodes before after : List α}

def Linked (next prev : α → α) (a b : α) : Prop := next a = b ∧ prev b = a

/-- The nodes of a ring, in the order in which `next` leads from its head back to it. -/
structure Ring (next prev : α → α) (head : α) (nodes : List α) : Prop where
  chain : (head :: nodes ++ [head]).IsChain (Linked next prev)
  nodup : (head :: nodes).Nodup

theorem Ring.self (alone : Linked next prev head head) : Ring next prev head [] :=
  ⟨by simpa using alone, by simp⟩

theorem Ring.reverse (ring : Ring next prev head nodes) : Ring prev next head nodes.reverse := by
  constructor
  · have back : (head :: nodes.reverse ++ [head]) = (head :: nodes ++ [head]).reverse := by simp
    rw [back, List.isChain_reverse]
    exact ring.chain.imp fun _ _ linked => ⟨linked.2, linked.1⟩
  · have nodup := ring.nodup
    rw [List.nodup_cons] at nodup ⊢
    exact ⟨fun member => nodup.1 (List.mem_reverse.mp member), (List.reverse_perm nodes).nodup_iff.mpr nodup.2⟩

theorem Ring.congr (ring : Ring next prev head nodes) (same : ∀ y ∈ head :: nodes, next' y = next y ∧ prev' y = prev y) :
    Ring next' prev' head nodes := by
  refine ⟨ring.chain.imp_of_mem_imp ?_, ring.nodup⟩
  intro a b first second linked
  have inside : ∀ y ∈ head :: nodes ++ [head], y ∈ head :: nodes := by
    intro y member
    rcases List.mem_append.mp member with member | last
    · exact member
    · rw [List.mem_singleton.mp last]
      exact List.mem_cons_self
  exact ⟨(same a (inside a first)).1.trans linked.1, (same b (inside b second)).2.trans linked.2⟩

theorem Ring.split (ring : Ring next prev head (before ++ x :: after)) :
    (head :: before ++ [x]).IsChain (Linked next prev) ∧ (x :: after ++ [head]).IsChain (Linked next prev) := by
  have chain := ring.chain
  have shape : head :: (before ++ x :: after) ++ [head] = (head :: before) ++ x :: (after ++ [head]) := by simp
  rw [shape] at chain
  exact List.isChain_split.mp chain

theorem linked_first (chain : (a :: nodes ++ [b]).IsChain (Linked next prev)) : Linked next prev a (nodes.headD b) := by
  cases nodes with
  | nil => exact List.isChain_pair.mp chain
  | cons x after => exact (List.isChain_cons_cons.mp chain).1

theorem linked_last (chain : (a :: nodes ++ [b]).IsChain (Linked next prev)) : Linked next prev (nodes.getLastD a) b :=
  (List.isChain_append.mp chain).2.2 _ (by simp [List.getLast?_cons]) b rfl

theorem Ring.next_head (ring : Ring next prev head nodes) : next head = nodes.headD head :=
  (linked_first ring.chain).1

theorem Ring.next_node (ring : Ring next prev head (before ++ x :: after)) : next x = after.headD head :=
  (linked_first ring.split.2).1

theorem Ring.next_prev (ring : Ring next prev head nodes) (member : x ∈ nodes) : next (prev x) = x := by
  obtain ⟨before, after, rfl⟩ := List.append_of_mem member
  obtain ⟨left, right⟩ := linked_last ring.split.1
  rw [right, left]

theorem Ring.prev_next (ring : Ring next prev head nodes) (member : x ∈ nodes) : prev (next x) = x :=
  ring.reverse.next_prev (List.mem_reverse.mpr member)

theorem headD_mem (head : α) (nodes : List α) : nodes.headD head ∈ head :: nodes := by
  cases nodes <;> simp

theorem Ring.next_mem (ring : Ring next prev head nodes) (member : x ∈ head :: nodes) : next x ∈ head :: nodes := by
  rcases List.mem_cons.mp member with rfl | member
  · rw [ring.next_head]
    exact headD_mem _ _
  · obtain ⟨before, after, rfl⟩ := List.append_of_mem member
    rw [ring.next_node]
    rcases List.mem_cons.mp (headD_mem head after) with same | later
    · rw [same]
      exact List.mem_cons_self
    · exact List.mem_cons_of_mem _ (List.mem_append_right _ (List.mem_cons_of_mem _ later))

theorem Ring.prev_mem (ring : Ring next prev head nodes) (member : x ∈ head :: nodes) : prev x ∈ head :: nodes := by
  have inside : ∀ y, y ∈ head :: nodes.reverse ↔ y ∈ head :: nodes := by simp
  exact (inside _).mp (ring.reverse.next_mem ((inside x).mpr member))

theorem Ring.rotate (ring : Ring next prev head (before ++ x :: after)) :
    Ring next prev x (after ++ head :: before) := by
  constructor
  · have shape : x :: (after ++ head :: before) ++ [x] = (x :: after) ++ head :: (before ++ [x]) := by simp
    rw [shape, List.isChain_split]
    exact ring.split.symm
  · have moved : (x :: after ++ head :: before).Perm (head :: before ++ x :: after) := List.perm_append_comm
    exact moved.nodup_iff.mpr ring.nodup

theorem Ring.around (ring : Ring next prev head nodes) (member : x ∈ head :: nodes) :
    ∃ others, Ring next prev x others ∧ ∀ y, y ∈ others ↔ y ∈ head :: nodes ∧ y ≠ x := by
  rcases List.mem_cons.mp member with rfl | inner
  · refine ⟨nodes, ring, fun y => ?_⟩
    have absent := (List.nodup_cons.mp ring.nodup).1
    rw [List.mem_cons]
    constructor
    · exact fun there => ⟨Or.inr there, fun same => absent (same ▸ there)⟩
    · exact fun there => there.1.resolve_left there.2
  · obtain ⟨before, after, rfl⟩ := List.append_of_mem inner
    have turned := ring.rotate
    refine ⟨after ++ head :: before, turned, fun y => ?_⟩
    have absent := (List.nodup_cons.mp turned.nodup).1
    have moved : y ∈ head :: (before ++ x :: after) ↔ y ∈ after ++ head :: before ∨ y = x := by
      simp only [List.mem_cons, List.mem_append]
      tauto
    rw [moved]
    constructor
    · exact fun there => ⟨Or.inl there, fun same => absent (same ▸ there)⟩
    · exact fun there => there.1.resolve_right there.2

theorem Ring.iterate_mem (ring : Ring next prev head nodes) (k : Nat) : next^[k] head ∈ head :: nodes := by
  induction k with
  | zero => exact List.mem_cons_self
  | succ k ih =>
    rw [Function.iterate_succ_apply']
    exact ring.next_mem ih

section arrays
variable [DecidableEq α]

theorem Linked.unlink (linked : Linked next prev a b) (first : a ≠ x) (second : b ≠ x) (left : next (prev x) = x)
    (right : prev (next x) = x) :
    Linked (Function.update next (prev x) (next x)) (Function.update prev (next x) (prev x)) a b := by
  obtain ⟨follows, precedes⟩ := linked
  have notLeft : a ≠ prev x := by
    rintro rfl
    exact second (follows.symm.trans left)
  have notRight : b ≠ next x := by
    rintro rfl
    exact first (precedes.symm.trans right)
  exact ⟨by rw [Function.update_of_ne notLeft, follows], by rw [Function.update_of_ne notRight, precedes]⟩

theorem Ring.unlink (ring : Ring next prev head nodes) (member : x ∈ nodes) :
    Ring (Function.update next (prev x) (next x)) (Function.update prev (next x) (prev x)) head
      (nodes.filter (· ≠ x)) := by
  have there := ring.next_prev member
  have back := ring.prev_next member
  have nodup := ring.nodup
  obtain ⟨before, after, rfl⟩ := List.append_of_mem member
  obtain ⟨first, second⟩ := ring.split
  have apart : x ≠ head ∧ x ∉ before ∧ x ∉ after := by
    simp only [List.nodup_cons, List.nodup_append, List.mem_append, List.mem_cons] at nodup
    grind
  obtain ⟨notHead, notBefore, notAfter⟩ := apart
  have all : ∀ l : List α, x ∉ l → l.filter (· ≠ x) = l := by
    intro l absent
    refine List.filter_eq_self.mpr fun y member => ?_
    simpa using fun same : y = x => absent (same ▸ member)
  have kept : (before ++ x :: after).filter (· ≠ x) = before ++ after := by
    rw [List.filter_append, List.filter_cons, all before notBefore, all after notAfter]
    simp
  rw [kept]
  constructor
  · have shape : head :: (before ++ after) ++ [head] = (head :: before) ++ (after ++ [head]) := by simp
    rw [shape, List.isChain_append]
    refine ⟨?_, ?_, ?_⟩
    · refine first.left_of_append.imp_of_mem_imp fun a b ina inb linked => ?_
      exact linked.unlink (by grind) (by grind) there back
    · refine second.tail.imp_of_mem_imp fun a b ina inb linked => ?_
      exact linked.unlink (by grind) (by grind) there back
    · intro p last q begins
      have left : prev x = p := by
        rw [(linked_last first).2]
        simpa [List.getLast?_cons] using last
      have right : next x = q := by
        rw [(linked_first second).1]
        cases after <;> simpa using begins
      rw [left, right]
      exact ⟨Function.update_self .., Function.update_self ..⟩
  · exact nodup.sublist (by simp)

/-- Linking a node again undoes its unlinking. -/
theorem relink_unlink (next prev : α → α) {x : α} (there : next (prev x) = x) :
    Function.update (Function.update next (prev x) (next x)) (prev x) x = next := by
  rw [Function.update_idem]
  conv_rhs => rw [← Function.update_eq_self (prev x) next]
  rw [there]

theorem unlink_self (next prev : α → α) (x : α) : Function.update next (prev x) (next x) x = next x := by
  by_cases alone : x = prev x
  · rw [← alone, Function.update_self]
  · exact Function.update_of_ne alone _ _

theorem Linked.insert (linked : Linked next prev a b) (back : prev (next head) = head) (notHead : a ≠ head)
    (first : a ≠ x) (second : b ≠ x) :
    Linked (Function.update (Function.update next x (next head)) head x)
      (Function.update (Function.update prev (next head) x) x head) a b := by
  obtain ⟨follows, precedes⟩ := linked
  have notRight : b ≠ next head := by
    rintro rfl
    exact notHead (precedes.symm.trans back)
  constructor
  · rw [Function.update_of_ne notHead, Function.update_of_ne first, follows]
  · rw [Function.update_of_ne second, Function.update_of_ne notRight, precedes]

theorem Ring.insert (ring : Ring next prev head nodes) (new : x ∉ head :: nodes) :
    Ring (Function.update (Function.update next x (next head)) head x)
      (Function.update (Function.update prev (next head) x) x head) head (x :: nodes) := by
  have back : prev (next head) = head := by
    rw [ring.next_head]
    exact (linked_first ring.chain).2
  have right : next head ≠ x := fun same => new (same ▸ ring.next_mem List.mem_cons_self)
  have notHead : head ≠ x := fun same => new (same ▸ List.mem_cons_self)
  have fresh : ∀ y ∈ nodes, y ≠ x := fun y member same => new (same ▸ List.mem_cons_of_mem _ member)
  have apart : ∀ y ∈ nodes, y ≠ head := fun y member same => (List.nodup_cons.mp ring.nodup).1 (same ▸ member)
  constructor
  · have shape : head :: (x :: nodes) ++ [head] = head :: x :: (nodes ++ [head]) := rfl
    rw [shape, List.isChain_cons_cons, List.isChain_cons]
    refine ⟨⟨Function.update_self .., Function.update_self ..⟩, ?_, ?_⟩
    · intro q first
      have same : q = next head := by
        rw [ring.next_head]
        cases nodes <;> simpa using first.symm
      subst same
      refine ⟨?_, ?_⟩
      · rw [Function.update_of_ne notHead.symm, Function.update_self]
      · rw [Function.update_of_ne right, Function.update_self]
    · have chain := ring.chain.tail
      rw [List.cons_append, List.tail_cons, List.isChain_append] at chain
      obtain ⟨inner, _, last⟩ := chain
      rw [List.isChain_append]
      refine ⟨?_, List.isChain_singleton head, ?_⟩
      · exact inner.imp_of_mem_imp fun a b ina inb linked =>
          linked.insert back (apart a ina) (fresh a ina) (fresh b inb)
      · intro p final q same
        have inside : p ∈ nodes := List.mem_of_getLast? final
        have same : head = q := by simpa using same
        subst same
        exact (last p final head rfl).insert back (apart p inside) (fresh p inside) notHead
  · rw [List.nodup_cons, List.nodup_cons]
    have nodup := List.nodup_cons.mp ring.nodup
    refine ⟨?_, fun member => fresh x member rfl, nodup.2⟩
    intro member
    rcases List.mem_cons.mp member with same | old
    · exact notHead same
    · exact nodup.1 old

/-! Loops that follow the links. -/

/-- `for (i = first; i != stop; i = next[i]) body`, for at most `fuel` turns. The links are
read from the state that the body has left. -/
def follow (next : σ → α → Option α) (stop : α) (body : α → σ → Option σ) : Nat → α → σ → Option σ
  | 0, _, _ => none
  | fuel + 1, i, s =>
      if i = stop then some s
      else (body i s).bind fun s => (next s i).bind fun j => follow next stop body fuel j s

variable {link : σ → α → Option α} {body body' : α → σ → Option σ} {stop : α} {s t : σ} {fuel fuel' : Nat}

theorem follow_rule (link : σ → α → Option α) (body : α → σ → Option σ) (fuel : Nat)
    (Inv : List α → List α → σ → Prop) (nodes : List α) (absent : stop ∉ nodes)
    (step : ∀ done x rest s, nodes = done ++ x :: rest → Inv done (x :: rest) s →
      ∃ s', body x s = some s' ∧ Inv (done ++ [x]) rest s' ∧ link s' x = some (rest.headD stop))
    (enough : nodes.length < fuel) (start : Inv [] nodes s) :
    ∃ s', follow link stop body fuel (nodes.headD stop) s = some s' ∧ Inv nodes [] s' := by
  have from_here : ∀ (rest done : List α) (fuel : Nat) (s : σ), nodes = done ++ rest → rest.length < fuel →
      Inv done rest s → ∃ s', follow link stop body fuel (rest.headD stop) s = some s' ∧ Inv nodes [] s' := by
    intro rest
    induction rest with
    | nil =>
      intro done fuel s whole enough inv
      obtain ⟨fuel, rfl⟩ := Nat.exists_eq_add_of_lt enough
      rw [List.append_nil] at whole
      subst whole
      exact ⟨s, by simp [follow], inv⟩
    | cons x rest ih =>
      intro done fuel s whole enough inv
      obtain ⟨fuel, rfl⟩ : ∃ fuel', fuel = fuel' + 1 := ⟨fuel - 1, by simp at enough; omega⟩
      obtain ⟨s', ran, inv', linked⟩ := step done x rest s whole inv
      have notStop : x ≠ stop := fun same => absent (by rw [whole, ← same]; simp)
      obtain ⟨s'', looped, final⟩ := ih (done ++ [x]) fuel s' (by rw [whole]; simp) (by simpa using enough) inv'
      refine ⟨s'', ?_, final⟩
      simp only [List.headD_cons, follow, if_neg notStop, ran, Option.bind_some, linked]
      exact looped
  exact from_here nodes [] fuel s rfl enough start

inductive Turns (next : σ → α → Option α) (stop : α) (body : α → σ → Option σ) (i : α) (s : σ) : α → σ → Prop
  | refl : Turns next stop body i s i s
  | tail {j k : α} {t u : σ} : Turns next stop body i s j t → j ≠ stop → body j t = some u → next u j = some k →
      Turns next stop body i s k u

omit [DecidableEq α] in
theorem Turns.rule {link : σ → α → Option α} {body : α → σ → Option σ} (Inv : List α → List α → σ → Prop)
    (nodes : List α)
    (step : ∀ done x rest s, nodes = done ++ x :: rest → Inv done (x :: rest) s →
      ∃ s', body x s = some s' ∧ Inv (done ++ [x]) rest s' ∧ link s' x = some (rest.headD stop))
    {j : α} {t : σ} (turns : Turns link stop body (nodes.headD stop) s j t) (start : Inv [] nodes s) :
    ∃ done rest, nodes = done ++ rest ∧ j = rest.headD stop ∧ Inv done rest t := by
  induction turns with
  | refl => exact ⟨[], nodes, rfl, rfl, start⟩
  | tail _ notStop ran linked ih =>
    obtain ⟨done, rest, whole, at_, inv⟩ := ih
    cases rest with
    | nil => exact absurd at_ notStop
    | cons x rest =>
      obtain rfl : _ = x := at_
      obtain ⟨s', ran', inv', linked'⟩ := step done _ rest _ whole inv
      obtain rfl : s' = _ := Option.some.inj (ran'.symm.trans ran)
      refine ⟨done ++ [_], rest, ?_, Option.some.inj (linked.symm.trans linked'), inv'⟩
      rw [whole, List.append_assoc, List.singleton_append]

def More {β : Type*} (first second : Option β) : Prop := ∀ b, first = some b → second = some b

theorem More.refl {β : Type*} (first : Option β) : More first first := fun _ result => result

theorem More.bind {β γ : Type*} {first second : Option β} {f g : β → Option γ} (here : More first second)
    (next : ∀ b, More (f b) (g b)) : More (first.bind f) (second.bind g) := by
  intro c result
  obtain ⟨b, ran, rest⟩ := Option.bind_eq_some_iff.mp result
  rw [here b ran]
  exact next b c rest

theorem follow_more (weaker : ∀ x s, More (body x s) (body' x s)) (more : fuel ≤ fuel') (i : α) (s : σ) :
    More (follow link stop body fuel i s) (follow link stop body' fuel' i s) := by
  induction fuel generalizing fuel' i s with
  | zero => exact fun _ none => nomatch none
  | succ fuel ih =>
    obtain ⟨fuel', rfl⟩ : ∃ k, fuel' = k + 1 := ⟨fuel' - 1, by omega⟩
    rw [follow, follow]
    split
    · exact More.refl _
    · exact (weaker i s).bind fun s => (More.refl _).bind fun j => ih (by omega) j s

theorem follow_map {τ : Type*} (f : σ → τ) (P : σ → Prop) {link' : τ → α → Option α} {body' : α → τ → Option τ}
    (step : ∀ x s s', P s → body x s = some s' → P s' ∧ body' x (f s) = some (f s'))
    (links : ∀ s x y, link s x = some y → link' (f s) x = some y) {i : α} (start : P s)
    (ran : follow link stop body fuel i s = some t) :
    P t ∧ follow link' stop body' fuel i (f s) = some (f t) := by
  induction fuel generalizing i s with
  | zero => exact absurd ran (by simp [follow])
  | succ fuel ih =>
    rw [follow] at ran ⊢
    by_cases last : i = stop
    · rw [if_pos last] at ran ⊢
      obtain rfl := Option.some.inj ran
      exact ⟨start, rfl⟩
    · rw [if_neg last] at ran ⊢
      obtain ⟨u, stepped, ran⟩ := Option.bind_eq_some_iff.mp ran
      obtain ⟨j, linked, ran⟩ := Option.bind_eq_some_iff.mp ran
      obtain ⟨kept, stepped'⟩ := step i s u start stepped
      rw [stepped', Option.bind_some, links u i j linked, Option.bind_some]
      exact ih kept ran

end arrays

theorem Ring.append [DecidableEq α] (ring : Ring next prev head nodes) (new : x ∉ head :: nodes) :
    Ring (Function.update (Function.update next x head) (prev head) x)
      (Function.update (Function.update prev x (prev head)) head x) head (nodes ++ [x]) := by
  have absent : x ∉ head :: nodes.reverse := by simpa using new
  have behind := (ring.reverse.insert absent).reverse
  have other : prev head ≠ x := by
    intro same
    exact new (same ▸ ring.prev_mem List.mem_cons_self)
  rw [List.reverse_cons, List.reverse_reverse] at behind
  rw [Function.update_comm other.symm]
  exact behind

end CloudLab.Links
