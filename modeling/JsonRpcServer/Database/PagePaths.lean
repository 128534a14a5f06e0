import JsonRpcServer.Database.ObjectTree
import JsonRpcServer.Framework.Delimiter
import JsonRpcServer.Framework.System

/-! # Where the Pages Are

  The constructor of `DatabaseObj` gives an object its two page files. Their
  path is made of the name of the object and the names of its ancestors: a
  loop climbs the parents and puts each name in front. The loop ends at an
  ancestor without a parent, and so in front of the root.

  ## Main results

  * `pagePaths_iff`: in every tree whose siblings have proper, distinct names
    the pages of an object are at the names from the root down exactly if it
    is the root. Two objects have a page in common exactly if they are the
    root and a child of the root with the same name.
  * `resolve_lineage`: a request finds an object by its names below the root.
    These are what the pages of every other object are at.

  ## Proof idea

  The names from the root down (`Lineage`) determine an object, as siblings
  have distinct names. The climb gives them without the first one, and for
  two objects below the root nothing is lost by that. For the root itself the
  loop is not entered.
-/

namespace DatabaseObj.PagePaths

open Bytes Delimiter

/-! ### Objects -/

/-- An object, with what its constructor computes. -/
structure Node where
  objectName : Bytes
  /-- `parent()`, as an index. -/
  parent : Option Nat
  /-- The names of the files `html_ping_pong_[0].f_in` and
      `html_ping_pong_[1].f_in`. -/
  full_path_ping : Bytes
  full_path_pong : Bytes
  deriving DecidableEq, Repr

/-- All objects in the order of their construction. -/
abbrev Tree := List Node

/-- `while (next && next->parent())`: put the names of the ancestors in front
    of `path`. Each turn goes to an older object, so the number of objects is
    enough fuel. -/
def climb (t : Tree) : Nat → Option Nat → List Bytes → List Bytes
  | 0, _, path => path
  | _ + 1, none, path => path
  | fuel + 1, some next, path =>
      match t[next]? with
      | none => path
      | some x =>
          match x.parent with
          | none => path
          | some _ => climb t fuel x.parent (x.objectName :: path)

/-- `path.join('/')`. -/
def join (path : List Bytes) : Bytes := [47].intercalate path

def ping (full_path : Bytes) : Bytes := full_path ++ ascii "/page0.html"

def pong (full_path : Bytes) : Bytes := full_path ++ ascii "/page1.html"

/-- The arguments of a constructor. -/
structure New where
  name : Bytes
  parent : Option Nat
  deriving DecidableEq, Repr

/-- `DatabaseObj(name, parent)`. -/
def construct (t : Tree) (c : New) : Node :=
  let full_path := join (climb t t.length c.parent [c.name])
  ⟨c.name, c.parent, ping full_path, pong full_path⟩

/-- One more object. Its parent is there already, and only the first object
    has none. -/
def step (t : Tree) (c : New) : Option Tree :=
  match c.parent with
  | none => if t = [] then some (t ++ [construct t c]) else none
  | some p => if p < t.length then some (t ++ [construct t c]) else none

/-- The tree has been built with the constructor. -/
def Built (t : Tree) : Prop := ∃ calls, System.run step [] calls = some t

/-! ### What the paths should be -/

/-- The names from the root down to the object. -/
inductive Lineage (t : Tree) : Nat → List Bytes → Prop where
  | root {i : Nat} {x : Node} (hx : t[i]? = some x) (hparent : x.parent = none) :
      Lineage t i [x.objectName]
  | child {i p : Nat} {x : Node} {l : List Bytes} (hx : t[i]? = some x)
      (hparent : x.parent = some p) (hl : Lineage t p l) : Lineage t i (l ++ [x.objectName])

/-- Names are not empty and without `/`, and those of siblings differ. -/
structure ProperNames (t : Tree) : Prop where
  nonempty : ∀ x ∈ t, x.objectName ≠ []
  slash : ∀ x ∈ t, (47 : UInt8) ∉ x.objectName
  siblings : ∀ (i j : Nat) (x y : Node), t[i]? = some x → t[j]? = some y → x.parent = y.parent →
    x.objectName = y.objectName → i = j

/-- The pages of an object are at the names from the root down. -/
def FromRoot (t : Tree) (i : Nat) : Prop :=
  ∀ x l, t[i]? = some x → Lineage t i l →
    x.full_path_ping = ping (join l) ∧ x.full_path_pong = pong (join l)

def Node.pages (x : Node) : List Bytes := [x.full_path_ping, x.full_path_pong]

/-- Two objects have no page in common. -/
def Apart (t : Tree) : Prop :=
  ∀ (i j : Nat) (x y : Node), t[i]? = some x → t[j]? = some y → i ≠ j →
    ∀ page ∈ x.pages, page ∉ y.pages

/-- A child of the root has the name of the root. -/
def RootTwin (t : Tree) : Prop :=
  ∃ (i : Nat) (x r : Node), t[i]? = some x ∧ t[0]? = some r ∧ x.parent = some 0 ∧
    x.objectName = r.objectName

/-! ### Lineages -/

section lineage

variable {t : Tree} {i p : Nat} {x : Node} {l l' : List Bytes}

theorem Lineage.ne_nil (h : Lineage t i l) : l ≠ [] := by
  cases h with
  | root => simp
  | child => simp

/-- The lineage of the root is its name. -/
theorem Lineage.of_root (hl : Lineage t i l) (hx : t[i]? = some x) (hparent : x.parent = none) :
    l = [x.objectName] := by
  cases hl with
  | root hx' _ =>
    rw [hx] at hx'
    rw [Option.some.inj hx']
  | child hx' hsome _ =>
    rw [hx] at hx'
    rw [← Option.some.inj hx', hparent] at hsome
    cases hsome

/-- The last name of any other lineage is that of the object. -/
theorem Lineage.of_child (hl : Lineage t i l) (hx : t[i]? = some x) (hparent : x.parent = some p) :
    ∃ m, Lineage t p m ∧ l = m ++ [x.objectName] := by
  cases hl with
  | root hx' hnone =>
    rw [hx] at hx'
    rw [← Option.some.inj hx', hparent] at hnone
    cases hnone
  | child hx' hsome hm =>
    rw [hx] at hx'
    obtain rfl := Option.some.inj hx'
    rw [hparent] at hsome
    obtain rfl := Option.some.inj hsome
    exact ⟨_, hm, rfl⟩

/-- An object has one lineage. -/
theorem Lineage.unique (h : Lineage t i l) (h' : Lineage t i l') : l = l' := by
  induction h generalizing l' with
  | root hx hparent => rw [h'.of_root hx hparent]
  | child hx hparent _ ih =>
    obtain ⟨m, hm, rfl⟩ := h'.of_child hx hparent
    rw [ih hm]

/-- New objects change no lineage. -/
theorem Lineage.append (h : Lineage t i l) (u : Tree) : Lineage (t ++ u) i l := by
  induction h with
  | root hx hparent =>
    apply Lineage.root _ hparent
    rw [List.getElem?_append_left (List.getElem?_eq_some_iff.mp hx).1]
    exact hx
  | child hx hparent _ ih =>
    apply Lineage.child _ hparent ih
    rw [List.getElem?_append_left (List.getElem?_eq_some_iff.mp hx).1]
    exact hx

/-- The names of a lineage are names of objects. -/
theorem Lineage.mem (h : Lineage t i l) : ∀ name ∈ l, ∃ x ∈ t, x.objectName = name := by
  induction h with
  | root hx _ =>
    intro name hname
    rw [List.mem_singleton.mp hname]
    exact ⟨_, List.mem_of_getElem? hx, rfl⟩
  | child hx _ _ ih =>
    intro name hname
    rcases List.mem_append.mp hname with hname | hname
    · exact ih name hname
    · rw [List.mem_singleton.mp hname]
      exact ⟨_, List.mem_of_getElem? hx, rfl⟩

end lineage

/-! ### Trees -/

/-- Parents are older, and the first object is the root. -/
structure WellFormed (t : Tree) : Prop where
  parent : ∀ (i : Nat) (x : Node) (p : Nat), t[i]? = some x → x.parent = some p → p < i
  root : ∀ (i : Nat) (x : Node), t[i]? = some x → (x.parent = none ↔ i = 0)

section wellFormed

variable {t : Tree} {i j : Nat} {l l' : List Bytes}

/-- Every object has a lineage. -/
theorem WellFormed.exists_lineage (ht : WellFormed t) (hi : i < t.length) :
    ∃ l, Lineage t i l := by
  induction i using Nat.strongRecOn with
  | ind i ih =>
    have hx : t[i]? = some t[i] := List.getElem?_eq_getElem hi
    cases hparent : t[i].parent with
    | none => exact ⟨_, .root hx hparent⟩
    | some p =>
      have hlt := ht.parent i _ p hx hparent
      obtain ⟨l, hl⟩ := ih p hlt (by omega)
      exact ⟨_, .child hx hparent hl⟩

/-- A lineage begins with the name of the root. -/
theorem WellFormed.lineage_head (ht : WellFormed t) (h : Lineage t i l) :
    ∃ r, t[0]? = some r ∧ l = r.objectName :: l.tail := by
  induction h with
  | root hx hparent =>
    rw [(ht.root _ _ hx).mp hparent] at hx
    exact ⟨_, hx, rfl⟩
  | child _ _ hl ih =>
    obtain ⟨r, hr, heq⟩ := ih
    refine ⟨r, hr, ?_⟩
    rw [List.tail_append_of_ne_nil hl.ne_nil, ← List.cons_append, ← heq]

/-- The climb gives the lineage without the root. -/
theorem WellFormed.climb_eq (ht : WellFormed t) (h : Lineage t i l) {fuel : Nat} (hi : i < fuel)
    (path : List Bytes) : climb t fuel (some i) path = l.tail ++ path := by
  induction h generalizing fuel path with
  | root hx hparent =>
    obtain ⟨fuel, rfl⟩ := Nat.exists_eq_add_of_lt hi
    rw [climb, hx]
    dsimp only
    rw [hparent]
    rfl
  | @child i p x l hx hparent hl ih =>
    obtain ⟨fuel, rfl⟩ : ∃ f, fuel = f + 1 := ⟨fuel - 1, by omega⟩
    have hlt := ht.parent i x p hx hparent
    rw [climb, hx]
    dsimp only
    rw [hparent]
    dsimp only
    rw [ih (by omega), List.tail_append_of_ne_nil hl.ne_nil, List.append_assoc]
    rfl

/-- With distinct siblings a lineage belongs to one object. -/
theorem WellFormed.lineage_inj (ht : WellFormed t) (hnames : ProperNames t) (h : Lineage t i l)
    (h' : Lineage t j l) : i = j := by
  induction h generalizing j with
  | root hx hparent =>
    generalize hl : [_] = l at h'
    cases h' with
    | root hx' hparent' =>
      rw [(ht.root _ _ hx).mp hparent, (ht.root _ _ hx').mp hparent']
    | child _ _ hl' =>
      -- a lineage of one name is that of the root
      have hlen := congrArg List.length hl
      rw [List.length_append, List.length_singleton, List.length_singleton] at hlen
      exact absurd (List.length_eq_zero_iff.mp (by omega)) hl'.ne_nil
  | @child i p x l hx hparent hl ih =>
    generalize hwhole : l ++ [x.objectName] = l' at h'
    cases h' with
    | root hx' _ =>
      have hlen := congrArg List.length hwhole
      rw [List.length_append, List.length_singleton, List.length_singleton] at hlen
      exact absurd (List.length_eq_zero_iff.mp (by omega)) hl.ne_nil
    | @child _ q y m hx' hparent' hm =>
      obtain ⟨hlm, hname⟩ := List.append_inj' hwhole rfl
      obtain rfl := ih (hlm ▸ hm)
      exact hnames.siblings i j x y hx hx' (hparent.trans hparent'.symm)
        (List.cons.inj hname).1

end wellFormed

/-! ### Built trees -/

/-- The names that the pages of an object are at. -/
def pageNames (x : Node) (l : List Bytes) : List Bytes := if x.parent = none then l else l.tail

/-- The pages of an object without a parent are at its whole lineage. -/
theorem pageNames_root {x : Node} (hparent : x.parent = none) (l : List Bytes) :
    pageNames x l = l := by
  rw [pageNames, if_pos hparent]

/-- The pages of any other object are at its lineage without the root. -/
theorem pageNames_child {x : Node} {p : Nat} (hparent : x.parent = some p) (l : List Bytes) :
    pageNames x l = l.tail := by
  rw [pageNames, if_neg (by rw [hparent]; simp)]

/-- What the constructor has computed. -/
structure Constructed (t : Tree) : Prop extends WellFormed t where
  pages : ∀ (i : Nat) (x : Node) (l : List Bytes), t[i]? = some x → Lineage t i l →
    x.full_path_ping = ping (join (pageNames x l)) ∧ x.full_path_pong = pong (join (pageNames x l))

theorem constructed_nil : Constructed [] where
  parent i x p h := by cases h
  root i x h := by cases h
  pages i x l h := by cases h

theorem old_or_newest {t : Tree} {x y : Node} {i : Nat} (h : (t ++ [y])[i]? = some x) :
    (i < t.length ∧ t[i]? = some x) ∨ (i = t.length ∧ x = y) := by
  rcases Nat.lt_or_ge i t.length with hi | hi
  · rw [List.getElem?_append_left hi] at h
    exact Or.inl ⟨hi, h⟩
  · have hlt := (List.getElem?_eq_some_iff.mp h).1
    rw [List.length_append, List.length_singleton] at hlt
    have heq : i = t.length := by omega
    rw [heq, List.getElem?_concat_length] at h
    exact Or.inr ⟨heq, (Option.some.inj h).symm⟩

/-- The object `c` is the newest. -/
theorem constructed_snoc {t : Tree} {c : New} (ht : Constructed t)
    (hroot : c.parent = none ↔ t = []) (hparent : ∀ p, c.parent = some p → p < t.length) :
    Constructed (t ++ [construct t c]) := by
  constructor
  · constructor
    · intro i x p hx hp
      rcases old_or_newest hx with ⟨_, hx⟩ | ⟨rfl, rfl⟩
      · exact ht.parent i x p hx hp
      · exact hparent p hp
    · intro i x hx
      rcases old_or_newest hx with ⟨_, hx⟩ | ⟨rfl, rfl⟩
      · exact ht.root i x hx
      · exact hroot.trans List.length_eq_zero_iff.symm
  · intro i x l hx hl
    rcases old_or_newest hx with ⟨hi, hx⟩ | ⟨rfl, rfl⟩
    · -- an older object has the lineage it had
      obtain ⟨l', hl'⟩ := ht.exists_lineage hi
      rw [hl.unique (hl'.append _)]
      exact ht.pages i x l' hx hl'
    · have hnames : climb t t.length c.parent [c.name] = pageNames (construct t c) l := by
        have hnew : (construct t c).parent = c.parent := rfl
        cases hc : c.parent with
        | none =>
          rw [pageNames_root (hnew.trans hc), hl.of_root hx (hnew.trans hc), hroot.mp hc]
          rfl
        | some p =>
          obtain ⟨m, hm⟩ := ht.exists_lineage (hparent p hc)
          obtain ⟨m', hm', rfl⟩ := hl.of_child hx (hnew.trans hc)
          rw [pageNames_child (hnew.trans hc), ht.climb_eq hm (hparent p hc),
            hm'.unique (hm.append _), List.tail_append_of_ne_nil hm.ne_nil]
          rfl
      rw [← hnames]
      exact ⟨rfl, rfl⟩

theorem constructed_step {t t' : Tree} {c : New} (ht : Constructed t) (h : step t c = some t') :
    Constructed t' := by
  unfold step at h
  split at h
  · next hnone =>
    rw [Option.ite_none_right_eq_some] at h
    obtain ⟨hnil, h⟩ := h
    rw [← Option.some.inj h]
    apply constructed_snoc ht
    · exact iff_of_true hnone hnil
    · intro p hp
      rw [hnone] at hp
      cases hp
  · next p hsome =>
    rw [Option.ite_none_right_eq_some] at h
    obtain ⟨hlt, h⟩ := h
    rw [← Option.some.inj h]
    apply constructed_snoc ht
    · refine iff_of_false (by rw [hsome]; simp) ?_
      intro hnil
      rw [hnil] at hlt
      exact Nat.not_lt_zero p hlt
    · intro q hq
      rw [hsome] at hq
      exact Option.some.inj hq ▸ hlt

theorem Built.constructed {t : Tree} (h : Built t) : Constructed t := by
  obtain ⟨calls, hrun⟩ := h
  exact System.run_keeps (fun _ _ _ => constructed_step) constructed_nil hrun

/-! ### Page files -/

theorem ping_inj {a b : Bytes} (h : ping a = ping b) : a = b := List.append_cancel_right h

theorem pong_inj {a b : Bytes} (h : pong a = pong b) : a = b := List.append_cancel_right h

theorem ping_ne_pong (a b : Bytes) : ping a ≠ pong b := by
  intro h
  exact absurd (List.append_inj_right' h (by decide)) (by decide)

/-- Objects with a page in common have the same `full_path`. -/
theorem full_path_eq {a b page : Bytes} (h : page ∈ [ping a, pong a])
    (h' : page ∈ [ping b, pong b]) : a = b := by
  rw [List.mem_pair] at h h'
  rcases h with rfl | rfl
  · rcases h' with h | h
    · exact ping_inj h
    · exact absurd h (ping_ne_pong a b)
  · rcases h' with h | h
    · exact absurd h.symm (ping_ne_pong b a)
    · exact pong_inj h

section constructed

variable {t : Tree} {i j p : Nat} {x y : Node} {l l' : List Bytes}

theorem Constructed.pages_eq (ht : Constructed t) (hx : t[i]? = some x) (hl : Lineage t i l) :
    x.pages = [ping (join (pageNames x l)), pong (join (pageNames x l))] := by
  obtain ⟨hping, hpong⟩ := ht.pages i x l hx hl
  rw [Node.pages, hping, hpong]

theorem pageNames_ne_nil (hx : t[i]? = some x) (hl : Lineage t i l) : pageNames x l ≠ [] := by
  cases hparent : x.parent with
  | none =>
    rw [pageNames_root hparent]
    exact hl.ne_nil
  | some p =>
    obtain ⟨m, hm, rfl⟩ := hl.of_child hx hparent
    rw [pageNames_child hparent, List.tail_append_of_ne_nil hm.ne_nil]
    simp

/-- No name of a lineage has a `/`. -/
theorem ProperNames.slash_lineage (hnames : ProperNames t) (hl : Lineage t i l) :
    ∀ name ∈ l, (47 : UInt8) ∉ name := by
  intro name hname
  obtain ⟨y, hy, rfl⟩ := hl.mem name hname
  exact hnames.slash y hy

theorem ProperNames.slash_pageNames (hnames : ProperNames t) (hl : Lineage t i l) :
    ∀ name ∈ pageNames x l, (47 : UInt8) ∉ name := by
  intro name hname
  apply hnames.slash_lineage hl
  unfold pageNames at hname
  split at hname
  · exact hname
  · exact List.mem_of_mem_tail hname

/-- The pages of an object are at the names from the root exactly if it is
    the root. -/
theorem Constructed.fromRoot_iff (ht : Constructed t) (hnames : ProperNames t)
    (hx : t[i]? = some x) : FromRoot t i ↔ x.parent = none := by
  constructor
  · intro h
    obtain ⟨l, hl⟩ := ht.exists_lineage (List.getElem?_eq_some_iff.mp hx).1
    cases hparent : x.parent with
    | none => rfl
    | some p =>
      have hping := (h x l hx hl).1
      rw [(ht.pages i x l hx hl).1] at hping
      have heq := intercalate_inj (pageNames_ne_nil hx hl) hl.ne_nil
        (hnames.slash_pageNames hl) (hnames.slash_lineage hl) (ping_inj hping)
      -- one name is missing
      rw [pageNames_child hparent] at heq
      have hlen := congrArg List.length heq
      rw [List.length_tail] at hlen
      have hpos := List.length_pos_iff.mpr hl.ne_nil
      omega
  · intro hparent y l hy hl
    rw [hx] at hy
    obtain rfl := Option.some.inj hy
    rw [← pageNames_root hparent l]
    exact ht.pages i x l hx (pageNames_root hparent l ▸ hl)

/-- A child whose pages are at the name of the root. -/
theorem Constructed.rootTwin (ht : Constructed t) (hnames : ProperNames t) (hx : t[i]? = some x)
    (hy : t[j]? = some y) (hl : Lineage t i l) (hl' : Lineage t j l') (hroot : x.parent = none)
    (hchild : y.parent = some p) (heq : l = l'.tail) : RootTwin t := by
  obtain rfl := (ht.root i x hx).mp hroot
  obtain rfl := hl.unique (.root hx hroot)
  obtain ⟨r, hr, hhead⟩ := ht.lineage_head hl'
  rw [hx] at hr
  obtain rfl := Option.some.inj hr
  obtain ⟨m, hm, hlast⟩ := hl'.of_child hy hchild
  rw [← heq, hlast] at hhead
  have htwo : m ++ [y.objectName] = [x.objectName] ++ [x.objectName] := hhead
  obtain ⟨rfl, hname⟩ := List.append_inj' htwo rfl
  obtain rfl := ht.lineage_inj hnames hm (.root hx hroot)
  exact ⟨j, y, x, hy, hx, hchild, (List.cons.inj hname).1⟩

/-- Objects with a page in common are the root and a child with its name. -/
theorem Constructed.rootTwin_of_page (ht : Constructed t) (hnames : ProperNames t)
    (hx : t[i]? = some x) (hy : t[j]? = some y) (hij : i ≠ j) {page : Bytes}
    (hpage : page ∈ x.pages) (hpage' : page ∈ y.pages) : RootTwin t := by
  obtain ⟨l, hl⟩ := ht.exists_lineage (List.getElem?_eq_some_iff.mp hx).1
  obtain ⟨l', hl'⟩ := ht.exists_lineage (List.getElem?_eq_some_iff.mp hy).1
  rw [ht.pages_eq hx hl] at hpage
  rw [ht.pages_eq hy hl'] at hpage'
  have heq := intercalate_inj (pageNames_ne_nil hx hl) (pageNames_ne_nil hy hl')
    (hnames.slash_pageNames hl) (hnames.slash_pageNames hl') (full_path_eq hpage hpage')
  cases hparent : x.parent with
  | none =>
    rw [pageNames_root hparent] at heq
    cases hparent' : y.parent with
    | none =>
      have hi := (ht.root i x hx).mp hparent
      have hj := (ht.root j y hy).mp hparent'
      exact absurd (hi.trans hj.symm) hij
    | some q =>
      rw [pageNames_child hparent'] at heq
      exact ht.rootTwin hnames hx hy hl hl' hparent hparent' heq
  | some p =>
    rw [pageNames_child hparent] at heq
    cases hparent' : y.parent with
    | none =>
      rw [pageNames_root hparent'] at heq
      exact ht.rootTwin hnames hy hx hl' hl hparent' hparent heq.symm
    | some q =>
      rw [pageNames_child hparent'] at heq
      obtain ⟨r, hr, hhead⟩ := ht.lineage_head hl
      obtain ⟨r', hr', hhead'⟩ := ht.lineage_head hl'
      rw [hr] at hr'
      rw [← Option.some.inj hr', ← heq, ← hhead] at hhead'
      exact absurd (ht.lineage_inj hnames hl (hhead' ▸ hl')) hij

/-- Such a child has the pages of the root. -/
theorem Constructed.not_apart (ht : Constructed t) (h : RootTwin t) : ¬ Apart t := by
  intro hapart
  obtain ⟨i, x, r, hx, hr, hparent, hname⟩ := h
  have hroot := (ht.root 0 r hr).mpr rfl
  have hl : Lineage t 0 [r.objectName] := .root hr hroot
  have hne : i ≠ 0 := by
    have hlt := ht.parent i x 0 hx hparent
    omega
  apply hapart i 0 x r hx hr hne (ping (join [r.objectName]))
  · rw [ht.pages_eq hx (.child hx hparent hl), pageNames_child hparent, hname]
    exact List.mem_cons_self
  · rw [ht.pages_eq hr hl, pageNames_root hroot]
    exact List.mem_cons_self

theorem Constructed.apart_iff (ht : Constructed t) (hnames : ProperNames t) :
    Apart t ↔ ¬ RootTwin t := by
  constructor
  · intro hapart h
    exact ht.not_apart h hapart
  · intro h i j x y hx hy hij page hpage hpage'
    exact h (ht.rootTwin_of_page hnames hx hy hij hpage hpage')

/-- Everything is as it should be in a tree of the root alone. -/
theorem Constructed.proper_iff (ht : Constructed t) (hnames : ProperNames t) :
    (Apart t ∧ ∀ i, FromRoot t i) ↔ t.length ≤ 1 := by
  constructor
  · rintro ⟨_, hfrom⟩
    by_contra hlen
    have hone : 1 < t.length := by omega
    have hx := List.getElem?_eq_getElem hone
    have hparent := (ht.fromRoot_iff hnames hx).mp (hfrom 1)
    exact absurd ((ht.root 1 _ hx).mp hparent) (by decide)
  · intro hlen
    constructor
    · intro i j x y hx hy hij
      have hi := (List.getElem?_eq_some_iff.mp hx).1
      have hj := (List.getElem?_eq_some_iff.mp hy).1
      omega
    · intro i x l hx
      have hi := (List.getElem?_eq_some_iff.mp hx).1
      have hroot := (ht.root i x hx).mpr (by omega)
      exact (ht.fromRoot_iff hnames hx).mpr hroot x l hx

end constructed

/-! ### Requests -/

/-- The tree that a request is resolved in. -/
def objectTree (t : Tree) : ObjectTree Nat where
  root_object := 0
  findChild i name := t.findIdx? fun x => x.parent = some i ∧ x.objectName = name

section requests

variable {t : Tree} {i p : Nat} {x : Node} {l : List Bytes}

/-- Of the children of an object one has the name. -/
theorem findChild_eq (hnames : ProperNames t) (hx : t[i]? = some x) (hparent : x.parent = some p) :
    (objectTree t).findChild p x.objectName = some i := by
  obtain ⟨hi, hget⟩ := List.getElem?_eq_some_iff.mp hx
  apply List.findIdx?_eq_some_iff_getElem.mpr
  refine ⟨hi, ?_, ?_⟩
  · rw [hget, decide_eq_true_iff]
    exact ⟨hparent, rfl⟩
  · intro j hj hfound
    rw [decide_eq_true_iff] at hfound
    have hy := List.getElem?_eq_getElem (l := t) (hj.trans hi)
    have hji := hnames.siblings j i _ x hy hx (hfound.1.trans hparent.symm) hfound.2
    omega

theorem Constructed.resolve_tail (ht : Constructed t) (hnames : ProperNames t)
    (h : Lineage t i l) : (objectTree t).resolve l.tail = some i := by
  induction h with
  | root hx hparent =>
    rw [(ht.root _ _ hx).mp hparent]
    rfl
  | child hx hparent hl ih =>
    unfold ObjectTree.resolve at ih ⊢
    rw [List.tail_append_of_ne_nil hl.ne_nil, List.foldlM_append, ih]
    change (List.foldlM _ _ [_] : Option Nat) = _
    rw [List.foldlM_cons, findChild_eq hnames hx hparent]
    rfl

/-- The components of an URI are the names that it was joined from. -/
theorem targetPath_join (hne : l ≠ []) (hempty : ∀ name ∈ l, name ≠ [])
    (hslash : ∀ name ∈ l, (47 : UInt8) ∉ name) : targetPath (47 :: join l) = l := by
  have hsplit : (47 :: join l).splitOn 47 = [] :: l := by
    rw [List.splitOn_cons_eq_if_modifyHead, if_pos (by decide), join,
      List.splitOn_intercalate 47 hslash hne]
  unfold targetPath
  rw [hsplit, List.filter_cons_of_neg (by decide), List.filter_eq_self]
  intro name hname
  exact decide_eq_true (hempty name hname)

/-- A request with the names of an object below the root finds it. -/
theorem resolve_lineage (hbuilt : Built t) (hnames : ProperNames t) (h : Lineage t i l) :
    (objectTree t).resolve (targetPath (47 :: join l.tail)) = some i := by
  have hpath : targetPath (47 :: join l.tail) = l.tail := by
    rcases eq_or_ne l.tail [] with hnil | hne
    · rw [hnil]
      decide
    · apply targetPath_join hne
      · intro name hname
        obtain ⟨x, hx, rfl⟩ := h.mem name (List.mem_of_mem_tail hname)
        exact hnames.nonempty x hx
      · intro name hname
        exact hnames.slash_lineage h name (List.mem_of_mem_tail hname)
  rw [hpath]
  exact hbuilt.constructed.resolve_tail hnames h

end requests

/-! ### The paths -/

/-- The root and one child. -/
def withChild (root child : Bytes) : Tree :=
  [construct [] ⟨root, none⟩, construct [construct [] ⟨root, none⟩] ⟨child, some 0⟩]

theorem built_withChild (root child : Bytes) : Built (withChild root child) :=
  ⟨[⟨root, none⟩, ⟨child, some 0⟩], rfl⟩

/-- The two have no siblings. -/
theorem properNames_withChild {root child : Bytes}
    (h : ∀ x ∈ withChild root child, x.objectName ≠ [] ∧ (47 : UInt8) ∉ x.objectName) :
    ProperNames (withChild root child) where
  nonempty x hx := (h x hx).1
  slash x hx := (h x hx).2
  siblings i j x y hx hy hparent _ := by
    have ht := (built_withChild root child).constructed
    have hi : i < 2 := (List.getElem?_eq_some_iff.mp hx).1
    have hj : j < 2 := (List.getElem?_eq_some_iff.mp hy).1
    have hiff : i = 0 ↔ j = 0 := by
      rw [← ht.root i x hx, ← ht.root j y hy, hparent]
    omega

/-- **Where the pages are.** In a tree of more than the root some object is
    not at the names from the root down. -/
theorem pagePaths_iff (t : Tree) (hbuilt : Built t) (hnames : ProperNames t) :
    ((Apart t ∧ ∀ i, FromRoot t i) ↔ t.length ≤ 1) ∧ (Apart t ↔ ¬ RootTwin t) ∧
      ∀ i x, t[i]? = some x → (FromRoot t i ↔ x.parent = none) := by
  have ht := hbuilt.constructed
  refine ⟨ht.proper_iff hnames, ht.apart_iff hnames, ?_⟩
  intro i x hx
  exact ht.fromRoot_iff hnames hx

/-- The pages of the lamp are at its own name only. -/
theorem pagePaths_iff_lamp : ¬ FromRoot (withChild (ascii "DatabaseRoot") (ascii "Lamp")) 1 := by
  have h := pagePaths_iff (withChild (ascii "DatabaseRoot") (ascii "Lamp"))
    (built_withChild _ _) (properNames_withChild (by decide))
  intro hfrom
  exact absurd ((h.2.2 1 _ rfl).mp hfrom) (by decide)

/-- A child with the name of the root writes over the pages of the root. -/
theorem pages_overwritten :
    Built (withChild (ascii "DatabaseRoot") (ascii "DatabaseRoot")) ∧
      ProperNames (withChild (ascii "DatabaseRoot") (ascii "DatabaseRoot")) ∧
      ¬ Apart (withChild (ascii "DatabaseRoot") (ascii "DatabaseRoot")) ∧
      ¬ FromRoot (withChild (ascii "DatabaseRoot") (ascii "DatabaseRoot")) 1 := by
  have hbuilt := built_withChild (ascii "DatabaseRoot") (ascii "DatabaseRoot")
  have hnames : ProperNames (withChild (ascii "DatabaseRoot") (ascii "DatabaseRoot")) :=
    properNames_withChild (by decide)
  refine ⟨hbuilt, hnames, ?_, ?_⟩
  · exact hbuilt.constructed.not_apart ⟨1, _, _, rfl, rfl, rfl, rfl⟩
  · intro hfrom
    exact absurd ((hbuilt.constructed.fromRoot_iff hnames rfl).mp hfrom) (by decide)

end DatabaseObj.PagePaths
