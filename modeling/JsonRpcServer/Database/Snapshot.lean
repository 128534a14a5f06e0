import JsonRpcServer.Database.Published
import JsonRpcServer.Database.Readers

/-! # One Table for Each Page

  `refreshHtml` copies the names and then reads one property after the
  other, while calls change the properties in another thread. The page it
  publishes should still be the rendering of one table.

  A call that changes a row which has been read already, or which is not
  among the names, is missed by the page. A call that changes a row which is
  still to be read is seen. The page is a mixture when one of the second
  kind comes after one of the first, or brings back a row at another place.

  ## Main results

  * `refreshHtml_publishes_snapshot`: in every run whose calls keep to this
    order during a reading, every page that is about to be published is the
    rendering of a table that existed during that refresh.

  ## Proof idea

  Until a change is missed, the rows that are written are the first ones of
  the current table, and the rows still to be read are the others
  (`Current`). From the first missed change on, the table in front of it is
  the one on the page: the rows still to be read stay as they are.
-/

namespace DatabaseObj.PingPong

open Bytes System

variable {V : Type} (render : V → Bytes) (files : Page → Bytes)

/-! ### The property -/

/-- The refresh that runs at the end of `past` runs all along `since`. -/
def SameRefresh (past since : List (Label V)) : Prop :=
  ∀ ls s, ls <+: since → run (step render) (init files) (past ++ ls) = some s →
    s.refresher ≠ .idle

/-- The state has occurred since the refresh that now runs has begun. -/
def During (past : List (Label V)) (s : State V) : Prop :=
  ∃ before since, past = before ++ since ∧ run (step render) (init files) before = some s ∧
    SameRefresh render files before since

/-- The page about to be published is the rendering of one table. -/
def PublishesSnapshot (past : List (Label V)) (s : State V) : Prop :=
  ∀ state, s.refresher = .publishing state → ∃ s₀, During render files past s₀ ∧
    (s.html_ping_pong state.invalid).content = renderTable render s₀.table

/-! ### The order of the calls -/

/-- The call changes a row of the table. -/
def Changes (table : Table V) (name : Bytes) (value : Option V) : Prop :=
  name ≠ ascii "objectName" ∧ table.setProperty name value ≠ table

/-- The call changes a row that the running refresh does not read any more. -/
def Misses (s : State V) (l : Label V) : Prop :=
  ∃ name value state names, l = .setProperty name value ∧ s.refresher = .rows state names ∧
    name ∉ names ∧ Changes s.table name value

/-- The running refresh has missed a change. -/
def Missed (past : List (Label V)) : Prop :=
  ∃ before l after s, past = before ++ l :: after ∧
    run (step render) (init files) before = some s ∧ Misses s l ∧
    SameRefresh render files before (l :: after)

/-- The call leaves the row where it is read: it does not bring back a row in
    front of one that is still there. -/
def InPlace (table : Table V) (names : List Bytes) (name : Bytes) (value : Option V) : Prop :=
  value = none ∨ name ∈ table.dynamicPropertyNames ∨
    ∀ before after, names = before ++ name :: after →
      ∀ n ∈ after, n ∉ table.dynamicPropertyNames

/-- A row that is still to be read is changed in its place, and before a
    change is missed. -/
def InReadingOrder (past : List (Label V)) (s : State V) (l : Label V) : Prop :=
  ∀ name value state names, l = .setProperty name value → s.refresher = .rows state names →
    name ∈ names → Changes s.table name value →
      ¬ Missed render files past ∧ InPlace s.table names name value

/-! ### The reading loop -/

/-- What is written is the first rows of the table, and the names still to be
    read give the others. -/
def Current (table : Table V) (names : List Bytes) (content : Bytes) : Prop :=
  ∃ written rest : Table V, table = written ++ rest ∧
    content = head ++ (written.map fun p => render p.2).flatten ∧
    names.filter (· ∈ table.dynamicPropertyNames) = rest.dynamicPropertyNames

variable {render files}

theorem current_dynamicPropertyNames (table : Table V) :
    Current render table table.dynamicPropertyNames head := by
  refine ⟨[], table, rfl, ?_, ?_⟩
  · simp
  · rw [List.filter_eq_self]
    intro name hname
    exact decide_eq_true hname

/-- Reading the next row. -/
theorem Current.read {table : Table V} {name : Bytes} {names : List Bytes} {content : Bytes}
    (hnodup : table.dynamicPropertyNames.Nodup)
    (h : Current render table (name :: names) content) :
    Current render table names (content ++ (table.property name).elim [] render) := by
  obtain ⟨written, rest, htable, hcontent, hnames⟩ := h
  by_cases hmem : name ∈ table.dynamicPropertyNames
  · rw [List.filter_cons, if_pos (decide_eq_true hmem)] at hnames
    -- the row is the first one behind those that are written
    cases rest with
    | nil => cases hnames
    | cons p rest =>
      obtain ⟨hname, hnames⟩ := List.cons.inj hnames
      have hp : table.property name = some p.2 := by
        rw [hname]
        exact Table.property_of_mem hnodup (htable ▸ List.mem_append_right _ List.mem_cons_self)
      refine ⟨written ++ [p], rest, ?_, ?_, hnames⟩
      · rw [htable, List.append_assoc]
        rfl
      · rw [hp, hcontent]
        simp
  · rw [List.filter_cons, if_neg (by simpa using hmem)] at hnames
    rw [Table.property_eq_none_iff.mpr hmem]
    refine ⟨written, rest, htable, ?_, hnames⟩
    rw [hcontent]
    exact List.append_nil _

/-- What the refresh would publish now is the rendering of the table. -/
theorem Current.rows {table : Table V} {names : List Bytes} {content : Bytes}
    (hnodup : table.dynamicPropertyNames.Nodup) (h : Current render table names content) :
    content ++ rows render table names ++ tail = renderTable render table := by
  induction names generalizing content with
  | nil =>
    obtain ⟨written, rest, rfl, rfl, hnames⟩ := h
    have hrest : rest = [] := List.map_eq_nil_iff.mp hnames.symm
    rw [hrest, renderTable, List.append_nil]
    show head ++ (written.map fun p => render p.2).flatten ++ [] ++ tail = _
    rw [List.append_nil]
  | cons name names ih =>
    rw [rows_cons, ← List.append_assoc]
    exact ih (h.read hnodup)

/-- Among distinct names one that is added at the end stays at the end. -/
theorem filter_add_last {names : List Bytes} {name : Bytes} {p : Bytes → Bool}
    (hnodup : names.Nodup) (hmem : name ∈ names) (hnew : p name = false)
    (hlast : ∀ before after, names = before ++ name :: after → ∀ n ∈ after, p n = false) :
    names.filter (fun n => p n || decide (n = name)) = names.filter p ++ [name] := by
  obtain ⟨before, after, rfl⟩ := List.append_of_mem hmem
  obtain ⟨_, hafter, hbefore⟩ := List.nodup_append.mp hnodup
  have hb : before.filter (fun n => p n || decide (n = name)) = before.filter p := by
    apply List.filter_congr
    intro n hn
    rw [decide_eq_false (hbefore n hn name List.mem_cons_self), Bool.or_false]
  have ha : after.filter p = [] := by
    rw [List.filter_eq_nil_iff]
    intro n hn
    simp [hlast before after rfl n hn]
  have ha' : after.filter (fun n => p n || decide (n = name)) = [] := by
    rw [List.filter_eq_nil_iff]
    intro n hn
    have hne : n ≠ name := fun heq => (List.nodup_cons.mp hafter).1 (heq ▸ hn)
    simp [hlast before after rfl n hn, hne]
  rw [List.filter_append, List.filter_append, hb, List.filter_cons, if_pos (by simp),
    List.filter_cons, if_neg (by simp [hnew]), ha, ha', List.append_nil]

/-- A row that is still to be read is changed in its place. -/
theorem Current.setProperty {table : Table V} {names : List Bytes} {content : Bytes}
    {name : Bytes} {value : Option V} (htable : table.dynamicPropertyNames.Nodup)
    (hnodup : names.Nodup) (hmem : name ∈ names) (hplace : InPlace table names name value)
    (h : Current render table names content) :
    Current render (table.setProperty name value) names content := by
  obtain ⟨written, rest, rfl, hcontent, hnames⟩ := h
  have hsplit : Table.dynamicPropertyNames (written ++ rest) =
      written.dynamicPropertyNames ++ rest.dynamicPropertyNames := List.map_append
  -- a row of the table that is still to be read is none of those written
  have hrest : name ∈ Table.dynamicPropertyNames (written ++ rest) →
      name ∈ rest.dynamicPropertyNames := by
    intro hin
    rw [← hnames, List.mem_filter]
    exact ⟨hmem, decide_eq_true hin⟩
  have hwritten : name ∉ written.dynamicPropertyNames := by
    intro hin
    have hboth := hrest (hsplit ▸ List.mem_append_left _ hin)
    rw [hsplit] at htable
    exact (List.nodup_append.mp htable).2.2 name hin name hboth rfl
  refine ⟨written, rest.setProperty name value, Table.setProperty_append hwritten value,
    hcontent, ?_⟩
  cases value with
  | none =>
    rw [Table.dynamicPropertyNames_setProperty_none (t := rest), ← hnames, List.filter_filter]
    apply List.filter_congr
    intro n _
    rw [← Bool.decide_and, decide_eq_decide, Table.mem_dynamicPropertyNames_setProperty_none]
    exact and_comm
  | some v =>
    by_cases hin : name ∈ Table.dynamicPropertyNames (written ++ rest)
    · rw [Table.dynamicPropertyNames_setProperty_of_mem (hrest hin), ← hnames]
      apply List.filter_congr
      intro n _
      rw [decide_eq_decide, Table.mem_dynamicPropertyNames_setProperty_some]
      exact or_iff_left_of_imp fun heq => heq ▸ hin
    · have hnew : name ∉ rest.dynamicPropertyNames :=
        fun hr => hin (hsplit ▸ List.mem_append_right _ hr)
      have hlast := (hplace.resolve_left nofun).resolve_left hin
      rw [Table.dynamicPropertyNames_setProperty_of_not_mem hnew, ← hnames,
        ← filter_add_last hnodup hmem (decide_eq_false hin) fun before after hna n hn =>
          decide_eq_false (hlast before after hna n hn)]
      apply List.filter_congr
      intro n _
      rw [← Bool.decide_or, decide_eq_decide, Table.mem_dynamicPropertyNames_setProperty_some]

/-- The rows still to be read do not show a change of another row. -/
theorem rows_setProperty {table : Table V} {names : List Bytes} {name : Bytes}
    (hmem : name ∉ names) (value : Option V) :
    rows render (table.setProperty name value) names = rows render table names := by
  unfold rows
  apply congrArg List.flatten
  apply List.map_congr_left
  intro n hn
  have hne : n ≠ name := fun heq => hmem (heq ▸ hn)
  show ((table.setProperty name value).property n).elim [] render = _
  rw [Table.property_setProperty_ne table hne value]

/-! ### Histories -/

/-- A step that does not end the refresh. -/
theorem SameRefresh.snoc {past since : List (Label V)} {l : Label V} {s' : State V}
    (h : SameRefresh render files past since)
    (hrun : run (step render) (init files) (past ++ (since ++ [l])) = some s')
    (hbusy : s'.refresher ≠ .idle) : SameRefresh render files past (since ++ [l]) := by
  intro ls s hpre hs
  rcases List.prefix_concat_iff.mp hpre with rfl | hpre
  · rw [hrun, Option.some.injEq] at hs
    exact hs ▸ hbusy
  · exact h ls s hpre hs

/-- The state of a running refresh is one that occurs during it. -/
theorem during_now {past : List (Label V)} {s : State V}
    (hrun : run (step render) (init files) past = some s) (hbusy : s.refresher ≠ .idle) :
    During render files past s := by
  refine ⟨past, [], (List.append_nil past).symm, hrun, ?_⟩
  intro ls s' hpre hs
  rw [List.prefix_nil.mp hpre, List.append_nil, hrun, Option.some.injEq] at hs
  exact hs ▸ hbusy

theorem During.snoc {past : List (Label V)} {l : Label V} {s₀ s' : State V}
    (h : During render files past s₀)
    (hrun : run (step render) (init files) (past ++ [l]) = some s')
    (hbusy : s'.refresher ≠ .idle) : During render files (past ++ [l]) s₀ := by
  obtain ⟨before, since, rfl, hbefore, hsame⟩ := h
  rw [List.append_assoc] at hrun
  exact ⟨before, since ++ [l], List.append_assoc _ _ _, hbefore, hsame.snoc hrun hbusy⟩

/-- A call that changes a row behind the reading. -/
theorem missed_now {past : List (Label V)} {l : Label V} {s s' : State V}
    (hrun : run (step render) (init files) past = some s) (hmisses : Misses s l)
    (hrun' : run (step render) (init files) (past ++ [l]) = some s')
    (hbusy : s'.refresher ≠ .idle) : Missed render files (past ++ [l]) := by
  refine ⟨past, l, [], s, rfl, hrun, hmisses, ?_⟩
  have hnow : SameRefresh render files past [] := by
    intro ls s₁ hpre hs
    rw [List.prefix_nil.mp hpre, List.append_nil, hrun, Option.some.injEq] at hs
    obtain ⟨_, _, state, names, _, hpc, _⟩ := hmisses
    rw [← hs, hpc]
    nofun
  exact hnow.snoc hrun' hbusy

theorem Missed.snoc {past : List (Label V)} {l : Label V} {s' : State V}
    (h : Missed render files past)
    (hrun : run (step render) (init files) (past ++ [l]) = some s')
    (hbusy : s'.refresher ≠ .idle) : Missed render files (past ++ [l]) := by
  obtain ⟨before, l', after, s, rfl, hbefore, hmisses, hsame⟩ := h
  rw [List.append_assoc] at hrun
  exact ⟨before, l', after ++ [l], s, by simp, hbefore, hmisses, hsame.snoc hrun hbusy⟩

/-! ### The invariant -/

variable (render files) in
/-- What is on the page while the rows are read. -/
structure Reading (past : List (Label V)) (s : State V) (state : StatesPair)
    (names : List Bytes) : Prop where
  nodup : names.Nodup
  current : ¬ Missed render files past →
    Current render s.table names (s.html_ping_pong state.invalid).content
  /-- The page will be the one of a table of this refresh. -/
  shown : ∃ s₀, During render files past s₀ ∧
    (s.html_ping_pong state.invalid).content ++ rows render s.table names ++ tail =
      renderTable render s₀.table

variable (render files) in
structure SnapshotInv (past : List (Label V)) (s : State V) : Prop where
  reading : ∀ state names, s.refresher = .rows state names → Reading render files past s state names
  publishes : PublishesSnapshot render files past s

theorem snapshotInv_init : SnapshotInv render files [] (init files) := ⟨nofun, nofun⟩

/-- Steps that change neither the rows nor the page. -/
theorem SnapshotInv.of_frame {past : List (Label V)} {l : Label V} {s s' : State V}
    (h : SnapshotInv render files past s)
    (hrun : run (step render) (init files) (past ++ [l]) = some s')
    (htable : s'.table = s.table) (hrefresher : s'.refresher = s.refresher)
    (hcontent : ∀ p, (s'.html_ping_pong p).content = (s.html_ping_pong p).content) :
    SnapshotInv render files (past ++ [l]) s' := by
  constructor
  · intro state names hpc
    have hbusy : s'.refresher ≠ .idle := by
      rw [hpc]
      nofun
    obtain ⟨hnodup, hcurrent, s₀, hduring, hpage⟩ := h.reading state names (hrefresher ▸ hpc)
    refine ⟨hnodup, fun hmissed => ?_, s₀, hduring.snoc hrun hbusy, ?_⟩
    · rw [htable, hcontent]
      exact hcurrent fun hm => hmissed (hm.snoc hrun hbusy)
    · rw [htable, hcontent]
      exact hpage
  · intro state hpc
    have hbusy : s'.refresher ≠ .idle := by
      rw [hpc]
      nofun
    obtain ⟨s₀, hduring, hpage⟩ := h.publishes state (hrefresher ▸ hpc)
    exact ⟨s₀, hduring.snoc hrun hbusy, (hcontent _).trans hpage⟩

/-- A call that changes a row. -/
theorem SnapshotInv.setProperty {past : List (Label V)} {s s' : State V} {name : Bytes}
    {value : Option V} (h : SnapshotInv render files past s)
    (hnodup : s.table.dynamicPropertyNames.Nodup)
    (hrun : run (step render) (init files) past = some s)
    (hrun' : run (step render) (init files) (past ++ [.setProperty name value]) = some s')
    (horder : InReadingOrder render files past s (.setProperty name value))
    (hchanges : Changes s.table name value)
    (htable : s'.table = s.table.setProperty name value)
    (hrefresher : s'.refresher = s.refresher) (hpages : s'.html_ping_pong = s.html_ping_pong) :
    SnapshotInv render files (past ++ [.setProperty name value]) s' := by
  constructor
  · intro state names hpc
    have hbusy : s'.refresher ≠ .idle := by
      rw [hpc]
      nofun
    rw [hrefresher] at hpc
    obtain ⟨hnames, hcurrent, s₀, hduring, hpage⟩ := h.reading state names hpc
    by_cases hmem : name ∈ names
    · -- the row is still to be read: the page will be the one of the new table
      obtain ⟨hmissed, hplace⟩ := horder name value state names rfl hpc hmem hchanges
      have hnew := (hcurrent hmissed).setProperty hnodup hnames hmem hplace
      have hnodup' := Table.nodup_setProperty hnodup name value
      rw [← htable, ← hpages] at hnew
      rw [← htable] at hnodup'
      exact ⟨hnames, fun _ => hnew, s', during_now hrun' hbusy, hnew.rows hnodup'⟩
    · -- the page stays the one of an older table
      have hmissed := missed_now hrun ⟨name, value, state, names, rfl, hpc, hmem, hchanges⟩
        hrun' hbusy
      refine ⟨hnames, fun hnot => absurd hmissed hnot, s₀, hduring.snoc hrun' hbusy, ?_⟩
      rw [hpages, htable, rows_setProperty hmem]
      exact hpage
  · intro state hpc
    have hbusy : s'.refresher ≠ .idle := by
      rw [hpc]
      nofun
    obtain ⟨s₀, hduring, hpage⟩ := h.publishes state (hrefresher ▸ hpc)
    rw [hpages]
    exact ⟨s₀, hduring.snoc hrun' hbusy, hpage⟩

/-- The refresh thread reads no rows and is not about to publish. -/
def Silent : Refresher → Prop
  | .rows _ _ | .publishing _ => False
  | _ => True

/-- There the invariant says nothing. -/
theorem SnapshotInv.of_silent {past : List (Label V)} {s : State V} (h : Silent s.refresher) :
    SnapshotInv render files past s where
  reading state names hpc := by
    rw [hpc] at h
    exact False.elim h
  publishes state hpc := by
    rw [hpc] at h
    exact False.elim h

theorem rows_ne_idle (state : StatesPair) (names : List Bytes) :
    Refresher.rows state names ≠ .idle := by
  intro h
  cases h

theorem publishing_ne_idle (state : StatesPair) : Refresher.publishing state ≠ .idle := by
  intro h
  cases h

/-- The loop reads one row, or leaves behind the last one. -/
theorem Reading.refresh {past : List (Label V)} {s : State V} {state : StatesPair}
    {names : List Bytes} (h : Reading render files past s state names)
    (hpc : s.refresher = .rows state names) (hnodup : s.table.dynamicPropertyNames.Nodup)
    (hrun' : run (step render) (init files) (past ++ [.refresh]) = some (refreshStep render s)) :
    SnapshotInv render files (past ++ [.refresh]) (refreshStep render s) := by
  obtain ⟨hnames, hcurrent, s₀, hduring, hpage⟩ := h
  cases names with
  | nil =>
    rw [refreshStep, hpc] at hrun' ⊢
    refine ⟨fun _ _ hrows => (by cases hrows), ?_⟩
    intro state' hpc'
    cases hpc'
    refine ⟨s₀, hduring.snoc hrun' (publishing_ne_idle state), ?_⟩
    show ((s.modifyPage state.invalid (.write tail)).html_ping_pong state.invalid).content = _
    rw [modifyPage_write_content, ← hpage]
    show _ = (s.html_ping_pong state.invalid).content ++ [] ++ tail
    rw [List.append_nil]
  | cons name names =>
    rw [refreshStep, hpc] at hrun' ⊢
    refine ⟨?_, fun _ hpublishing => by cases hpublishing⟩
    intro state' names' hpc'
    cases hpc'
    have hwrite := modifyPage_write_content s state.invalid
      ((s.table.property name).elim [] render)
    have hbusy := rows_ne_idle state names
    refine ⟨(List.nodup_cons.mp hnames).2, fun hmissed => ?_, s₀, hduring.snoc hrun' hbusy, ?_⟩
    · have hnot : ¬ Missed render files past := fun hm => hmissed (hm.snoc hrun' hbusy)
      show Current render s.table names ((s.modifyPage state.invalid _).html_ping_pong _).content
      rw [hwrite]
      exact (hcurrent hnot).read hnodup
    · show ((s.modifyPage state.invalid _).html_ping_pong _).content ++
        rows render s.table names ++ tail = _
      rw [hwrite, ← hpage, rows_cons]
      simp only [List.append_assoc]

/-- A step of the refresh thread. -/
theorem SnapshotInv.refresh {past : List (Label V)} {s : State V}
    (h : SnapshotInv render files past s) (hpub : PublishInv render past s)
    (hrun' : run (step render) (init files) (past ++ [.refresh]) = some (refreshStep render s)) :
    SnapshotInv render files (past ++ [.refresh]) (refreshStep render s) := by
  cases hpc : s.refresher with
  | rows state names => exact (h.reading state names hpc).refresh hpc hpub.nodup hrun'
  | names state =>
    -- the copy of the names
    have hw := hpub.written
    rw [hpc] at hw
    have hhead : (s.html_ping_pong state.invalid).content = PingPong.head := hw
    have hcurrent : Current render s.table s.table.dynamicPropertyNames
        (s.html_ping_pong state.invalid).content := by
      rw [hhead]
      exact current_dynamicPropertyNames s.table
    rw [refreshStep, hpc] at hrun' ⊢
    refine ⟨?_, fun _ hpublishing => by cases hpublishing⟩
    intro state' names' hpc'
    cases hpc'
    have hbusy := rows_ne_idle state s.table.dynamicPropertyNames
    exact ⟨hpub.nodup, fun _ => hcurrent, _, during_now hrun' hbusy, hcurrent.rows hpub.nodup⟩
  | idle =>
    rw [refreshStep, hpc]
    dsimp only
    split
    · exact .of_silent trivial
    · exact .of_silent (by rw [hpc]; trivial)
  | waiting state =>
    rw [refreshStep, hpc]
    dsimp only
    split
    · exact .of_silent (by rw [modifyPage_refresher, hpc]; trivial)
    · exact .of_silent trivial
  | started =>
    rw [refreshStep, hpc]
    exact .of_silent trivial
  | truncating state =>
    rw [refreshStep, hpc]
    exact .of_silent trivial
  | head state =>
    rw [refreshStep, hpc]
    exact .of_silent trivial
  | publishing state =>
    rw [refreshStep, hpc]
    exact .of_silent trivial

theorem snapshotInv_step {past : List (Label V)} {s s' : State V} {l : Label V}
    (hrun : run (step render) (init files) past = some s) (h : SnapshotInv render files past s)
    (horder : InReadingOrder render files past s l) (hstep : step render s l = some s') :
    SnapshotInv render files (past ++ [l]) s' := by
  have hrun' := run_snoc hrun hstep
  have hpub := publishInv_of_run hrun
  cases l with
  | setProperty name value =>
    obtain ⟨_, rfl⟩ := step_setProperty hstep
    by_cases hchanges : Changes s.table name value
    · exact h.setProperty hpub.nodup hrun hrun' horder hchanges (if_neg hchanges.1) rfl rfl
    · refine h.of_frame hrun' ?_ rfl fun _ => rfl
      show (if name = ascii "objectName" then s.table
        else s.table.setProperty name value) = s.table
      split
      · rfl
      · next hname =>
        by_contra hne
        exact hchanges ⟨hname, hne⟩
  | notifyRefresh =>
    obtain ⟨_, rfl⟩ := step_notifyRefresh hstep
    exact h.of_frame hrun' rfl rfl fun _ => rfl
  | refresh =>
    cases hstep
    exact h.refresh hpub hrun'
  | getHTMLFile =>
    cases hstep
    exact h.of_frame hrun' rfl rfl fun _ => rfl
  | client i e =>
    obtain ⟨c, _, hstep⟩ := step_client hstep
    rcases clientStep_cases hstep with ⟨_, _, rfl⟩ | ⟨_, _, rfl⟩ | ⟨_, _, _, _, rfl⟩ |
      ⟨_, _, _, rfl⟩
    · exact h.of_frame hrun' rfl rfl fun _ => rfl
    · exact h.of_frame hrun' rfl rfl (modifyPage_content (f := .release) fun _ => rfl)
    · exact h.of_frame hrun' rfl rfl fun _ => rfl
    · exact h.of_frame hrun' rfl rfl (modifyPage_content (f := .acquire) fun _ => rfl)

/-! ### Pages -/

/-- **One table for each page**: in every run whose calls change the rows
    that are still to be read in their place and before a change is missed,
    every page about to be published is the rendering of a table that
    existed during that refresh. -/
theorem refreshHtml_publishes_snapshot (render : V → Bytes) (files : Page → Bytes)
    (ls : List (Label V))
    (hls : GuardedPast (step render) (InReadingOrder render files) (init files) ls) :
    ∀ past s, past <+: ls → run (step render) (init files) past = some s →
      PublishesSnapshot render files past s := by
  intro past s hpre hrun
  have hinv : SnapshotInv render files past s :=
    run_invariant_past snapshotInv_init
      (fun past s l s' hrun h hG hstep => snapshotInv_step hrun h hG hstep) past s
      (hls.of_prefix hpre) hrun
  exact hinv.publishes

/-! ### Two runs -/

/-- A row is changed while it is still to be read. -/
def seenUpdate : List (Label Bytes) :=
  update (ascii "a") 6 ++ [.setProperty (ascii "Text") (some (ascii "b")), .refresh, .refresh]

/-- The labels in front of the two calls of the run. -/
theorem seenUpdate_setProperty {past : List (Label Bytes)} {name : Bytes} {value : Option Bytes}
    (hpre : past ++ [.setProperty name value] <+: seenUpdate) :
    past = [] ∨ past = seenUpdate.take 8 := by
  have hpast : past = seenUpdate.take past.length :=
    List.prefix_iff_eq_take.mp ((List.prefix_append past _).trans hpre)
  have hlabel : seenUpdate[past.length]? = some (.setProperty name value) := by
    obtain ⟨rest, hrest⟩ := hpre
    rw [← hrest]
    simp
  have hcalls : ∀ k < 11, (seenUpdate[k]?).any (fun l => l matches .setProperty _ _) →
      k = 0 ∨ k = 8 := by decide
  have hlt : past.length < 11 := by
    have hle := hpre.length_le
    rw [List.length_append] at hle
    exact hle
  rcases hcalls past.length hlt (by rw [hlabel]; rfl) with h | h
  · exact Or.inl (List.length_eq_zero_iff.mp h)
  · exact Or.inr (h ▸ hpast)

/-- Nothing is missed in front of the second call. -/
theorem not_missed_seenUpdate : ¬ Missed id (fun _ => []) (seenUpdate.take 8) := by
  intro h
  obtain ⟨before, l, after, s, hpast, hrun, ⟨name, value, state, names, rfl, hpc, _⟩, _⟩ := h
  have hpre : before ++ [.setProperty name value] <+: seenUpdate :=
    List.IsPrefix.trans ⟨after, by simp [hpast]⟩ (List.take_prefix 8 seenUpdate)
  rcases seenUpdate_setProperty hpre with rfl | rfl
  · cases hrun
    cases hpc
  · have hlen := congrArg List.length hpast
    simp at hlen

theorem inReadingOrder_seenUpdate :
    GuardedPast (step id) (InReadingOrder id fun _ => []) (init fun _ => []) seenUpdate := by
  intro past s l hpre hrun name value state names hl hpc hmem _
  subst hl
  rcases seenUpdate_setProperty hpre with rfl | rfl
  · cases hrun
    cases hpc
  · have hreads : (run (step id) (init fun _ => []) (seenUpdate.take 8)).all (fun s =>
        s.refresher = .rows .initial s.table.dynamicPropertyNames) := by
      decide +kernel
    rw [hrun] at hreads
    have hnames := hpc.symm.trans (of_decide_eq_true hreads)
    injection hnames with _ hnames
    exact ⟨not_missed_seenUpdate, Or.inr (Or.inl (hnames ▸ hmem))⟩

/-- The page about to be published shows the row as it was changed. -/
theorem refreshHtml_publishes_snapshot_seenUpdate :
    ∃ s, run (step id) (init fun _ => []) seenUpdate = some s ∧
      s.refresher = .publishing .initial ∧ PublishesSnapshot id (fun _ => []) seenUpdate s := by
  have hend : (run (step id) (init fun _ => []) seenUpdate).any (fun s =>
      s.refresher = .publishing .initial) := by
    decide +kernel
  obtain ⟨s, hrun, hpc⟩ := (Option.any_eq_true _ _).mp hend
  have hsnap := refreshHtml_publishes_snapshot id (fun _ => []) seenUpdate
    inReadingOrder_seenUpdate seenUpdate s List.prefix_rfl hrun
  exact ⟨s, hrun, of_decide_eq_true hpc, hsnap⟩

/-- The second of two rows that are changed is read, the first one is not. -/
def mixedUpdate : List (Label Bytes) :=
  [.setProperty (ascii "a") (some (ascii "1")), .notifyRefresh] ++
    [.setProperty (ascii "b") (some (ascii "1")), .notifyRefresh] ++ List.replicate 7 .refresh ++
    [.setProperty (ascii "a") (some (ascii "2")), .notifyRefresh] ++
    [.setProperty (ascii "b") (some (ascii "2")), .notifyRefresh] ++ List.replicate 2 .refresh

theorem refreshHtml_publishes_mixedUpdate :
    ¬ ∀ (files : Page → Bytes) (ls past : List (Label Bytes)) (s : State Bytes), past <+: ls →
      run (step id) (init files) past = some s → PublishesSnapshot id files past s := by
  intro hall
  -- the page of a table that has never been
  have hend : (run (step id) (init fun _ => []) mixedUpdate).any (fun s =>
      s.refresher = .publishing .initial ∧
        (s.html_ping_pong .page1).content = head ++ ascii "12" ++ tail) := by
    decide +kernel
  have hnever : ∀ k ≤ mixedUpdate.length,
      (run (step id) (init fun _ => []) (mixedUpdate.take k)).all (fun s =>
        renderTable id s.table ≠ head ++ ascii "12" ++ tail) := by
    decide +kernel
  obtain ⟨s, hrun, hpub⟩ := (Option.any_eq_true _ _).mp hend
  obtain ⟨hpc, hcontent⟩ := of_decide_eq_true hpub
  have hsnap := hall (fun _ => []) mixedUpdate mixedUpdate s List.prefix_rfl hrun
  obtain ⟨s₀, ⟨before, since, hsplit, hrun₀, _⟩, hpage⟩ := hsnap .initial hpc
  have hpre : before = mixedUpdate.take before.length := by
    rw [hsplit, List.take_left]
  have hle : before.length ≤ mixedUpdate.length := by
    rw [hsplit, List.length_append]
    omega
  have hbad := hnever before.length hle
  rw [← hpre, hrun₀] at hbad
  exact of_decide_eq_true hbad (hpage.symm.trans hcontent)

end DatabaseObj.PingPong
