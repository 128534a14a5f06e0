import JsonRpcServer.Database.Published
import JsonRpcServer.Database.Render
import JsonRpcServer.Database.Store
import JsonRpcServer.Framework.Delimiter

/-! # The Page of a Property Table

  `refreshHtml` writes a head, what `QMetaType::save` writes for each
  property, and a tail. Here it runs alone: no other party takes a step
  until it closes its file.

  ## Main results

  * `refreshWrites_iff`: what a refresh writes, byte for byte.
  * `refreshHtml_not_exact`: it is never the head, one element a property
    and the end tags, as the NUL of `tail` is written as well.
  * `refreshHtml_injective`: the page determines the values when no
    attribute contains what ends it in its element.

  What `save` writes for a type of Qt is a parameter.
-/

namespace DatabaseObj

open Bytes CString Printf System UserMetaTypes PingPong Delimiter

/-! ### Running alone -/

namespace PingPong

variable {V : Type} (render : V → Bytes)

/-- The refresh thread alone takes the one state to the other. -/
def Refreshes (s s' : State V) : Prop :=
  ∃ n, run (step render) s (List.replicate n .refresh) = some s'

/-- A refresh that starts in this state and runs alone closes its file with
    this content. -/
def RefreshWrites (s : State V) (page : Bytes) : Prop :=
  ∃ s' state, Refreshes render (s.goto .started) s' ∧ s'.refresher = .publishing state ∧
    (s'.html_ping_pong state.invalid).content = page

/-- The head, the rows of all names, and the tail. -/
def pageOf (table : Table V) : Bytes :=
  head ++ rows render table table.dynamicPropertyNames ++ tail

/-- What a refresh has written so far of the page of a table. -/
def WrittenOf (table : Table V) (s : State V) : Prop :=
  s.table = table ∧
    match s.refresher with
    | .idle | .started | .waiting _ | .truncating _ => True
    | .head state => (s.html_ping_pong state.invalid).content = []
    | .names state => (s.html_ping_pong state.invalid).content = head
    | .rows state names =>
        (s.html_ping_pong state.invalid).content ++ rows render table names ++ tail =
          pageOf render table
    | .publishing state => (s.html_ping_pong state.invalid).content = pageOf render table

variable {render}

theorem refreshes_refl (s : State V) : Refreshes render s s := ⟨0, rfl⟩

theorem refreshes_of_step {s s' : State V} (h : Refreshes render (refreshStep render s) s') :
    Refreshes render s s' := by
  obtain ⟨n, hn⟩ := h
  exact ⟨n + 1, hn⟩

/-- A step of the refresh thread. -/
theorem writtenOf_refreshStep {table : Table V} {s : State V} (h : WrittenOf render table s) :
    WrittenOf render table (refreshStep render s) := by
  obtain ⟨htable, hw⟩ := h
  cases hpc : s.refresher with
  | idle =>
    rw [refreshStep, hpc]
    dsimp only
    split
    · exact ⟨htable, trivial⟩
    · exact ⟨htable, by rw [hpc]; trivial⟩
  | started =>
    rw [refreshStep, hpc]
    exact ⟨htable, trivial⟩
  | waiting state =>
    rw [refreshStep, hpc]
    dsimp only
    split
    · exact ⟨htable, by rw [modifyPage_refresher, hpc]; trivial⟩
    · exact ⟨htable, trivial⟩
  | truncating state =>
    rw [refreshStep, hpc]
    refine ⟨htable, ?_⟩
    show ((s.modifyPage state.invalid .truncate).html_ping_pong state.invalid).content = []
    rw [modifyPage_html_ping_pong, if_pos rfl]
    rfl
  | head state =>
    rw [hpc] at hw
    have hempty : (s.html_ping_pong state.invalid).content = [] := hw
    rw [refreshStep, hpc]
    refine ⟨htable, ?_⟩
    show ((s.modifyPage state.invalid (.write head)).html_ping_pong state.invalid).content = head
    rw [modifyPage_write_content, hempty, List.nil_append]
  | names state =>
    rw [hpc] at hw
    have hhead : (s.html_ping_pong state.invalid).content = head := hw
    rw [refreshStep, hpc]
    refine ⟨htable, ?_⟩
    show (s.html_ping_pong state.invalid).content ++
      rows render table s.table.dynamicPropertyNames ++ tail = pageOf render table
    rw [hhead, htable]
    rfl
  | rows state names =>
    rw [hpc] at hw
    have hrest : (s.html_ping_pong state.invalid).content ++ rows render table names ++ tail =
        pageOf render table := hw
    rw [refreshStep, hpc]
    cases names with
    | nil =>
      refine ⟨htable, ?_⟩
      show ((s.modifyPage state.invalid (.write tail)).html_ping_pong state.invalid).content =
        pageOf render table
      rw [modifyPage_write_content, ← hrest]
      show _ = _ ++ [] ++ tail
      rw [List.append_nil]
    | cons name names =>
      refine ⟨htable, ?_⟩
      show ((s.modifyPage state.invalid (.write _)).html_ping_pong state.invalid).content ++
        rows render table names ++ tail = pageOf render table
      rw [modifyPage_write_content, ← hrest, rows_cons, htable, List.append_assoc _ _ (rows _ _ _)]
  | publishing state =>
    rw [refreshStep, hpc]
    exact ⟨htable, trivial⟩

theorem writtenOf_refreshes {table : Table V} {s s' : State V} (h : Refreshes render s s')
    (hs : WrittenOf render table s) : WrittenOf render table s' := by
  obtain ⟨n, hn⟩ := h
  induction n generalizing s with
  | zero =>
    cases hn
    exact hs
  | succ n ih => exact ih (writtenOf_refreshStep hs) hn

/-- The reading loop ends. -/
theorem rows_ends {s : State V} {state : StatesPair} (names : List Bytes)
    (hpc : s.refresher = .rows state names) :
    ∃ s' state', Refreshes render s s' ∧ s'.refresher = .publishing state' := by
  induction names generalizing s with
  | nil =>
    refine ⟨refreshStep render s, state, refreshes_of_step (refreshes_refl _), ?_⟩
    rw [refreshStep, hpc]
    rfl
  | cons name names ih =>
    have hnext : (refreshStep render s).refresher = .rows state names := by
      rw [refreshStep, hpc]
      rfl
    obtain ⟨s', state', hreach, hpub⟩ := ih hnext
    exact ⟨s', state', refreshes_of_step hreach, hpub⟩

/-- So does the loop on the semaphore. -/
theorem waiting_ends {s : State V} {state : StatesPair} (hpc : s.refresher = .waiting state) :
    ∃ s' state', Refreshes render s s' ∧ s'.refresher = .publishing state' := by
  -- the loop takes the tokens one by one
  generalize hk : (s.html_ping_pong state.invalid).semaphores = k
  induction k generalizing s with
  | zero =>
    have hstep : refreshStep render s = s.goto (.truncating state) := by
      rw [refreshStep, hpc]
      exact if_neg (by omega)
    let s₃ := refreshStep render (refreshStep render (refreshStep render (refreshStep render s)))
    have hrows : s₃.refresher = .rows state s.table.dynamicPropertyNames := by
      show (refreshStep render (refreshStep render (refreshStep render
        (refreshStep render s)))).refresher = _
      rw [hstep]
      rfl
    obtain ⟨s', state', hreach, hpub⟩ := rows_ends _ hrows
    refine ⟨s', state', ?_, hpub⟩
    apply refreshes_of_step
    apply refreshes_of_step
    apply refreshes_of_step
    apply refreshes_of_step
    exact hreach
  | succ k ih =>
    have hstep : refreshStep render s = s.modifyPage state.invalid .acquire := by
      rw [refreshStep, hpc]
      exact if_pos (by omega)
    have hless : ((refreshStep render s).html_ping_pong state.invalid).semaphores = k := by
      rw [hstep, modifyPage_html_ping_pong, if_pos rfl]
      show (s.html_ping_pong state.invalid).semaphores - 1 = k
      omega
    have hnext : (refreshStep render s).refresher = .waiting state := by
      rw [hstep]
      exact hpc
    obtain ⟨s', state', hreach, hpub⟩ := ih hnext hless
    exact ⟨s', state', refreshes_of_step hreach, hpub⟩

/-- **What a refresh writes**: the head, what each property saves, in the
    order of the names, and the tail with its NUL. -/
theorem refreshWrites_iff (s : State V) (page : Bytes) :
    RefreshWrites render s page ↔ page = pageOf render s.table := by
  have hstart : WrittenOf render s.table (s.goto .started) := ⟨rfl, trivial⟩
  -- every end of the refresh has this content, and there is one
  have hcontent : ∀ s' state, Refreshes render (s.goto .started) s' →
      s'.refresher = .publishing state →
        (s'.html_ping_pong state.invalid).content = pageOf render s.table := by
    intro s' state hreach hpc
    have hw := (writtenOf_refreshes hreach hstart).2
    rw [hpc] at hw
    exact hw
  constructor
  · intro h
    obtain ⟨s', state, hreach, hpc, hpage⟩ := h
    rw [← hpage]
    exact hcontent s' state hreach hpc
  · intro h
    have hwaiting : (refreshStep render (s.goto .started)).refresher =
        .waiting s.ping_pong_state := rfl
    obtain ⟨s', state, hreach, hpc⟩ := waiting_ends hwaiting
    have hreach' := refreshes_of_step hreach
    refine ⟨s', state, hreach', hpc, ?_⟩
    rw [h]
    exact hcontent s' state hreach' hpc

end PingPong

/-! ### The elements -/

/-- `QMetaType::save`; `saveOther` is what the operator of another type
    writes. The operators of the user types always return (`stream_eq`). -/
def save (saveOther : Bytes → Bytes) : PropValue → Bytes
  | .hyperLink url_ text_ => ((HyperLink.mk url_ text_).toStream).getD []
  | .text text_ => ((Text.mk text_).toStream).getD []
  | .header text_ level_ => ((Header.mk text_ level_).toStream).getD []
  | .other name => saveOther name

/-- `tail` as a text. -/
def endTags : Bytes := ascii "</body>\n</html>\n"

/-- The page with one element a property, in the order of
    `dynamicPropertyNames`, and nothing else. -/
def htmlPage (element : PropValue → Bytes) (table : Table PropValue) : Bytes :=
  head ++ (table.map fun p => element p.2).flatten ++ endTags

/-- **No exact page**: whatever the elements of the values are, a refresh does
    not write the head, the elements and the end tags. -/
theorem refreshHtml_not_exact (saveOther : Bytes → Bytes) (element : PropValue → Bytes)
    (s : State PropValue) : ¬ RefreshWrites (save saveOther) s (htmlPage element s.table) := by
  rw [refreshWrites_iff]
  intro h
  -- the last byte of the file is the NUL of `tail`
  have hlast : (htmlPage element s.table).getLast? = some 10 := by
    unfold htmlPage
    rw [List.getLast?_append]
    rfl
  rw [h] at hlast
  unfold pageOf at hlast
  rw [List.getLast?_append] at hlast
  exact absurd (Option.some.inj hlast) (by decide)

/-- A state with these properties. -/
def tableState (table : Table PropValue) : State PropValue :=
  { (init fun _ => [] : State PropValue) with table := table }

/-- One property of type `Text`. -/
def oneText : State PropValue := tableState [(ascii "text", .text (ascii "Test"))]

theorem refreshHtml_not_exact_oneText :
    ¬ RefreshWrites (save fun _ => []) oneText
      (head ++ ascii "<p>Test</p>" ++ ascii "</body>\n</html>\n") := by
  rw [refreshWrites_iff]
  decide +kernel

/-! ### Telling elements apart -/

/-- The formatted text of a value of a user type. -/
def formatted : PropValue → Bytes
  | .hyperLink url_ text_ => (HyperLink.mk url_ text_).formatted
  | .text text_ => (Text.mk text_).formatted
  | .header text_ level_ => (Header.mk text_ level_).formatted
  | .other _ => []

/-- No attribute contains what ends it in its element. -/
def Delimited : PropValue → Prop
  | .hyperLink url_ text_ => ¬ ascii "\">" <:+: url_ ∧ ¬ ascii "</a>" <:+: text_
  | .text text_ => ¬ ascii "</p>" <:+: text_
  | .header text_ level_ => ¬ ascii "</h" ++ decimalInt level_ ++ ascii ">" <:+: text_
  | .other _ => False

/-- The attributes are what the element shows: none of them has a NUL, and
    the element is not too long to be written. -/
def Shown (v : PropValue) : Prop :=
  (formatted v).length < 2 ^ 31 ∧
    match v with
    | .hyperLink url_ text_ => 0 ∉ url_ ∧ 0 ∉ text_
    | .text text_ => 0 ∉ text_
    | .header text_ _ => 0 ∉ text_
    | .other _ => False

instance : DecidablePred Delimited
  | .hyperLink _ _ => inferInstanceAs (Decidable (_ ∧ _))
  | .text _ => inferInstanceAs (Decidable (¬ _))
  | .header _ _ => inferInstanceAs (Decidable (¬ _))
  | .other _ => inferInstanceAs (Decidable False)

instance : DecidablePred Shown
  | .hyperLink _ _ => inferInstanceAs (Decidable (_ ∧ _ ∧ _))
  | .text _ => inferInstanceAs (Decidable (_ ∧ _))
  | .header _ _ => inferInstanceAs (Decidable (_ ∧ _))
  | .other _ => inferInstanceAs (Decidable (_ ∧ False))

/-- The first two bytes of the element. -/
def opening : PropValue → Bytes
  | .hyperLink _ _ => ascii "<a"
  | .text _ => ascii "<p"
  | .header _ _ => ascii "<h"
  | .other _ => []

theorem save_eq_formatted {v : PropValue} (h : Shown v) (saveOther : Bytes → Bytes) :
    save saveOther v = formatted v := by
  cases v with
  | hyperLink url_ text_ => exact congrArg (Option.getD · []) (stream_of_lt h.1)
  | text text_ => exact congrArg (Option.getD · []) (stream_of_lt h.1)
  | header text_ level_ => exact congrArg (Option.getD · []) (stream_of_lt h.1)
  | other name => exact absurd h.2 id

theorem take_formatted {v : PropValue} (h : Shown v) (x : Bytes) :
    (formatted v ++ x).take 2 = opening v := by
  cases v with
  | hyperLink url_ text_ =>
    show ((HyperLink.mk url_ text_).formatted ++ x).take 2 = _
    rw [HyperLink.formatted_eq]
    rfl
  | text text_ =>
    show ((Text.mk text_).formatted ++ x).take 2 = _
    rw [Text.formatted_eq]
    rfl
  | header text_ level_ =>
    show ((Header.mk text_ level_).formatted ++ x).take 2 = _
    rw [Header.formatted_eq]
    rfl
  | other name => exact absurd h.2 id

theorem hyperLink_cancel {link link' : HyperLink} {x y : Bytes}
    (hurl : ¬ ascii "\">" <:+: link.url_) (htext : ¬ ascii "</a>" <:+: link.text_)
    (hurl' : ¬ ascii "\">" <:+: link'.url_) (htext' : ¬ ascii "</a>" <:+: link'.text_)
    (h : link.toHtml ++ x = link'.toHtml ++ y) : link = link' ∧ x = y := by
  have hquote : Delimits (ascii "\">") := by decide
  have hend : Delimits (ascii "</a>") := by decide
  unfold HyperLink.toHtml at h
  simp only [List.append_assoc] at h
  obtain ⟨hurls, hrest⟩ := hquote.append_inj hurl hurl' (List.append_cancel_left h)
  obtain ⟨htexts, hxy⟩ := hend.append_inj htext htext' hrest
  cases link
  cases link'
  cases hurls
  cases htexts
  exact ⟨rfl, hxy⟩

theorem text_cancel {text_ text_' x y : Bytes}
    (htext : ¬ ascii "</p>" <:+: text_) (htext' : ¬ ascii "</p>" <:+: text_')
    (h : (Text.mk text_).toHtml ++ x = (Text.mk text_').toHtml ++ y) :
    text_ = text_' ∧ x = y := by
  have hend : Delimits (ascii "</p>") := by decide
  unfold Text.toHtml at h
  simp only [List.append_assoc] at h
  exact hend.append_inj htext htext' (List.append_cancel_left h)

/-- The end tag of a header delimits its text. -/
theorem delimits_headerEnd (level_ : Int) :
    Delimits (ascii "</h" ++ decimalInt level_ ++ ascii ">") := by
  have hlt : (60 : UInt8) ∉ decimalInt level_ := not_mem_decimalInt (by decide) level_
  have hsplit : ascii "</h" ++ decimalInt level_ ++ ascii ">" =
      60 :: (ascii "/h" ++ decimalInt level_ ++ ascii ">") := rfl
  rw [hsplit]
  show (60 : UInt8) ∉ ascii "/h" ++ decimalInt level_ ++ ascii ">"
  rw [List.mem_append, List.mem_append, not_or, not_or]
  exact ⟨⟨by decide, hlt⟩, by decide⟩

theorem header_cancel {text_ text_' : Bytes} {level_ level_' : Int} {x y : Bytes}
    (h0 : 0 ∉ text_) (h0' : 0 ∉ text_')
    (htext : ¬ ascii "</h" ++ decimalInt level_ ++ ascii ">" <:+: text_)
    (htext' : ¬ ascii "</h" ++ decimalInt level_' ++ ascii ">" <:+: text_')
    (h : (Header.mk text_ level_).formatted ++ x = (Header.mk text_' level_').formatted ++ y) :
    (text_ = text_' ∧ level_ = level_') ∧ x = y := by
  have hgt : Delimits (ascii ">") := by decide
  have hnumeral : ∀ i : Int, ¬ ascii ">" <:+: decimalInt i := fun i hin =>
    not_mem_decimalInt (b := 62) (by decide) i (hin.subset List.mem_cons_self)
  rw [Header.formatted_eq, Header.formatted_eq, content_of_zero_not_mem h0,
    content_of_zero_not_mem h0'] at h
  simp only [List.append_assoc] at h
  obtain ⟨hlevel, hrest⟩ := hgt.append_inj (hnumeral level_) (hnumeral level_')
    (List.append_cancel_left h)
  obtain rfl := decimalInt_injective hlevel
  -- both texts end with the same tag
  have hend : ∀ t z : Bytes, t ++ (ascii "</h" ++ (decimalInt level_ ++ (ascii ">" ++ z))) =
      t ++ (ascii "</h" ++ decimalInt level_ ++ ascii ">" ++ z) := by
    intro t z
    simp only [List.append_assoc]
  rw [hend, hend] at hrest
  obtain ⟨htexts, hxy⟩ := (delimits_headerEnd level_).append_inj htext htext' hrest
  exact ⟨⟨htexts, rfl⟩, hxy⟩

/-- An element can be cancelled from the front of a text. -/
theorem formatted_cancel {v w : PropValue} {x y : Bytes} (hv : Shown v) (hw : Shown w)
    (hv' : Delimited v) (hw' : Delimited w) (h : formatted v ++ x = formatted w ++ y) :
    v = w ∧ x = y := by
  have hopening : opening v = opening w := by
    rw [← take_formatted hv x, h, take_formatted hw y]
  cases v with
  | hyperLink url_ text_ =>
    cases w with
    | hyperLink url_' text_' =>
      have hhtml := (hyperLink_formatted_iff ⟨url_, text_⟩).mpr hv.2
      have hhtml' := (hyperLink_formatted_iff ⟨url_', text_'⟩).mpr hw.2
      have hpages : (HyperLink.mk url_ text_).toHtml ++ x =
          (HyperLink.mk url_' text_').toHtml ++ y := by
        rw [← hhtml, ← hhtml']
        exact h
      obtain ⟨hlinks, hxy⟩ := hyperLink_cancel hv'.1 hv'.2 hw'.1 hw'.2 hpages
      cases hlinks
      exact ⟨rfl, hxy⟩
    | text text_' => exact absurd hopening (show ascii "<a" ≠ ascii "<p" by decide)
    | header text_' level_' => exact absurd hopening (show ascii "<a" ≠ ascii "<h" by decide)
    | other name => exact absurd hw.2 id
  | text text_ =>
    cases w with
    | hyperLink url_' text_' => exact absurd hopening (show ascii "<p" ≠ ascii "<a" by decide)
    | text text_' =>
      have hhtml := (text_formatted_iff ⟨text_⟩).mpr hv.2
      have hhtml' := (text_formatted_iff ⟨text_'⟩).mpr hw.2
      have hpages : (Text.mk text_).toHtml ++ x = (Text.mk text_').toHtml ++ y := by
        rw [← hhtml, ← hhtml']
        exact h
      obtain ⟨rfl, hxy⟩ := text_cancel hv' hw' hpages
      exact ⟨rfl, hxy⟩
    | header text_' level_' => exact absurd hopening (show ascii "<p" ≠ ascii "<h" by decide)
    | other name => exact absurd hw.2 id
  | header text_ level_ =>
    cases w with
    | hyperLink url_' text_' => exact absurd hopening (show ascii "<h" ≠ ascii "<a" by decide)
    | text text_' => exact absurd hopening (show ascii "<h" ≠ ascii "<p" by decide)
    | header text_' level_' =>
      obtain ⟨⟨rfl, rfl⟩, hxy⟩ := header_cancel hv.2 hw.2 hv' hw' h
      exact ⟨rfl, hxy⟩
    | other name => exact absurd hw.2 id
  | other name => exact absurd hv.2 id

/-! ### The page -/

/-- The page of a table of shown values. -/
theorem pageOf_eq {table : Table PropValue} {saveOther : Bytes → Bytes}
    (hnodup : table.dynamicPropertyNames.Nodup) (h : ∀ p ∈ table, Shown p.2) :
    pageOf (save saveOther) table =
      head ++ (((table.map Prod.snd).map formatted).flatten ++ tail) := by
  unfold pageOf
  rw [rows_dynamicPropertyNames _ hnodup, List.append_assoc, List.map_map]
  have hrows : table.map (fun p => save saveOther p.2) = table.map (formatted ∘ Prod.snd) := by
    apply List.map_congr_left
    intro p hp
    exact save_eq_formatted (h p hp) saveOther
  rw [hrows]

/-- **Pages determine their elements**: when every value is shown and no
    attribute contains what ends it, tables with the same page have the same
    list of values. -/
theorem refreshHtml_injective (saveOther : Bytes → Bytes) (s s' : State PropValue)
    (hs : s.table.dynamicPropertyNames.Nodup) (hs' : s'.table.dynamicPropertyNames.Nodup)
    (hshown : ∀ p ∈ s.table, Shown p.2 ∧ Delimited p.2)
    (hshown' : ∀ p ∈ s'.table, Shown p.2 ∧ Delimited p.2) (page : Bytes)
    (hpage : RefreshWrites (save saveOther) s page)
    (hpage' : RefreshWrites (save saveOther) s' page) :
    s.table.map Prod.snd = s'.table.map Prod.snd := by
  rw [refreshWrites_iff, pageOf_eq hs fun p hp => (hshown p hp).1] at hpage
  rw [refreshWrites_iff, pageOf_eq hs' fun p hp => (hshown' p hp).1] at hpage'
  have hrows := List.append_cancel_left (hpage.symm.trans hpage')
  have hvalues : ∀ {t : Table PropValue}, (∀ p ∈ t, Shown p.2 ∧ Delimited p.2) →
      ∀ v ∈ t.map Prod.snd, Shown v ∧ Delimited v := by
    intro t ht v hv
    obtain ⟨p, hp, rfl⟩ := List.mem_map.mp hv
    exact ht p hp
  refine flatten_map_inj ?_ ?_ (hvalues hshown) (hvalues hshown') hrows
  · intro v w x y hv hw h
    exact formatted_cancel hv.1 hw.1 hv.2 hw.2 h
  · -- the tail opens with an end tag
    intro v x hv h
    have hopening : tail.take 2 = opening v := by
      rw [← h, take_formatted hv.1 x]
    cases v with
    | hyperLink url_ text_ => exact absurd hopening (show tail.take 2 ≠ ascii "<a" by decide)
    | text text_ => exact absurd hopening (show tail.take 2 ≠ ascii "<p" by decide)
    | header text_ level_ => exact absurd hopening (show tail.take 2 ≠ ascii "<h" by decide)
    | other name => exact absurd hv.2 id

/-! ### Two tables -/

/-- Two values. -/
def linkAndHeader (name name' : Bytes) : Table PropValue :=
  [(name, .hyperLink (ascii "u") (ascii "b")), (name', .header [] 1)]

theorem shown_linkAndHeader (name name' : Bytes) :
    ∀ p ∈ linkAndHeader name name', Shown p.2 ∧ Delimited p.2 := by
  have hvalues : ∀ v ∈ [PropValue.hyperLink (ascii "u") (ascii "b"), .header [] 1],
      Shown v ∧ Delimited v := by decide +kernel
  intro p hp
  exact hvalues p.2 (List.mem_map_of_mem (f := Prod.snd) hp)

/-- Values under different names. -/
theorem refreshHtml_injective_renamed :
    (linkAndHeader (ascii "a") (ascii "b")).map Prod.snd =
      (linkAndHeader (ascii "c") (ascii "d")).map Prod.snd :=
  refreshHtml_injective (fun _ => []) (tableState (linkAndHeader (ascii "a") (ascii "b")))
    (tableState (linkAndHeader (ascii "c") (ascii "d"))) (by decide) (by decide)
    (shown_linkAndHeader _ _) (shown_linkAndHeader _ _)
    (pageOf (save fun _ => []) (linkAndHeader (ascii "a") (ascii "b")))
    ((refreshWrites_iff _ _).mpr rfl) ((refreshWrites_iff _ _).mpr (by decide +kernel))

/-- The text of one element ends it and begins another. -/
theorem refreshHtml_not_injective_endTag :
    ∃ page, RefreshWrites (save fun _ => [])
        (tableState [(ascii "a", .text (ascii "b</p><p>c"))]) page ∧
      RefreshWrites (save fun _ => [])
        (tableState [(ascii "a", .text (ascii "b")), (ascii "c", .text (ascii "c"))]) page ∧
      [PropValue.text (ascii "b</p><p>c")] ≠ [.text (ascii "b"), .text (ascii "c")] := by
  refine ⟨head ++ ascii "<p>b</p><p>c</p>" ++ tail, ?_, ?_, by decide⟩
  · rw [refreshWrites_iff]
    decide +kernel
  · rw [refreshWrites_iff]
    decide +kernel

end DatabaseObj
