import JsonRpcServer.Database.PropertyMap

/-! # Writes and Signals

  The methods of `DatabaseObj` return early when a parameter does not fit.
  What they do to the object comes behind the last of these returns: one
  `setProperty`, then one `notifyRefresh`. Nobody looks at what
  `setProperty` returns.

  ## Main results

  * `signals_iff`: in every state the store can reach, a call that reports
    an error has done nothing, and a call that reports success has written
    its property and signalled once, in this order. The one exception is an
    `addProperty` for the declared property `objectName` whose type is no
    text: it signals and reports success, and writes nothing.

  ## Proof idea

  A method is a tree of reads with the effects at its leaves (`Body`), so
  that a case analysis of the tree gives the order of the effects. Among the
  reachable states no dynamic property is called `objectName`.
-/

namespace DatabaseObj

open Bytes CString JsonRPCServer JsonRPCErrorCodes

/-! ### Effects in order -/

/-- What a method does to its object. -/
inductive Effect where
  | setProperty (name : Bytes) (value : Option PropValue)
  | notifyRefresh
  deriving DecidableEq, Repr

def Effect.apply (types : MetaTypes) (o : Object) : Effect → Object
  | .setProperty name value => o.setProperty types name value
  | .notifyRefresh => o.notifyRefresh

/-- The statements of a method behind its reads. -/
inductive Body where
  | effect (e : Effect) (rest : Body)
  | ret (r : Ret)
  | nullDeref
  | badCast

/-- The call on an object. -/
def Body.run (types : MetaTypes) (o : Object) : Body → Outcome
  | .effect e rest => rest.run types (e.apply types o)
  | .ret r => .returned o r
  | .nullDeref => .nullDeref
  | .badCast => .badCast

/-- The effects of a call, in order. -/
def Body.effects : Body → List Effect
  | .effect e rest => e :: rest.effects
  | _ => []

/-- An early return. -/
def Body.refuse : Body := .ret ([], InvalidParams)

/-- `this->setProperty(name, value); notifyRefresh(); return {text, NoError};` -/
def Body.update (name : Bytes) (value : Option PropValue) (text : Bytes) : Body :=
  .effect (.setProperty name value) (.effect .notifyRefresh (.ret (text, NoError)))

section body

variable {P : Type} (types : MetaTypes) (api : VariantApi P)

def addPropertyBody (junk : Int) (params : List (Bytes × P)) (o : Object) : Body :=
  match extractParamStr api params (ascii "name") with
  | none => .refuse
  | some name =>
      if name ∈ o.dynamic.dynamicPropertyNames then .refuse
      else
        match extractParamStr api params (ascii "type") with
        | none => .refuse
        | some type_str =>
            match (types.fromName type_str).bind (types.defaultValue junk) with
            | none => .refuse
            | some prop_val =>
                .update name (some prop_val)
                  (ascii "Property <" ++ name ++ ascii "> type <" ++ type_str ++ ascii "> added")

def deletePropertyBody (params : List (Bytes × P)) (o : Object) : Body :=
  match extractParamStr api params (ascii "name") with
  | none => .refuse
  | some name =>
      if name ∈ o.dynamic.dynamicPropertyNames then
        .update name none (ascii "Property <" ++ name ++ ascii "> deleted")
      else .refuse

def listPropertiesBody (o : Object) : Body :=
  .ret ((o.dynamic.map fun p => ascii "\x7bProperty <" ++ p.1 ++ ascii ">, type: <" ++
    p.2.metaType.typeName ++ ascii ">\x7d ").flatten, NoError)

def setPropertyAttrBody (junk : Int) (params : List (Bytes × P)) (o : Object) : Body :=
  match extractParamStr api params (ascii "property") with
  | none => .refuse
  | some property =>
      match extractParamStr api params (ascii "attribute") with
      | none => .refuse
      | some attr =>
          match params.lookup (ascii "data") with
          | none => .refuse
          | some data =>
              match o.property property with
              | none => .nullDeref
              | some prop_v =>
                  if prop_v.metaType.isQObject then
                    .update property
                      (some (((prop_v.copied junk).setProperty api attr data).copied junk))
                      (ascii "Attribute " ++ attr ++ ascii " set to " ++ api.toString data)
                  else .badCast

def body (o : Object) : Call P → Body
  | .addProperty junk params => addPropertyBody types api junk params o
  | .deleteProperty params => deletePropertyBody api params o
  | .listProperties => listPropertiesBody o
  | .setPropertyAttr junk params => setPropertyAttrBody api junk params o

end body

/-! ### The property a call writes -/

section spec

variable {P : Type} (types : MetaTypes) (api : VariantApi P)

/-- What a value converts to as a `QString`. -/
def PropValue.toQString : PropValue → Option Bytes
  | .other type => types.toQString type
  | _ => none

/-- The object holds this value of the property. -/
def Object.Wrote (o : Object) (name : Bytes) (value : Option PropValue) : Prop :=
  if name = ascii "objectName" then value.bind (PropValue.toQString types) = some o.objectName
  else o.dynamic.property name = value

/-- The call may write. -/
def Call.updates : Call P → Bool
  | .listProperties => false
  | _ => true

/-- The property that the call names. -/
def Call.property : Call P → Option Bytes
  | .addProperty _ params | .deleteProperty params => extractParamStr api params (ascii "name")
  | .listProperties => none
  | .setPropertyAttr _ params => extractParamStr api params (ascii "property")

/-- A successful update signals once, and then the property is written;
    every other call that returns leaves the object alone. -/
def Signals (o : Object) (c : Call P) : Prop :=
  ∀ o' ret, call types api o c = .returned o' ret →
    if c.updates ∧ ret.2 = NoError then
      ∃ name value, c.property api = some name ∧
        (body types api o c).effects = [.setProperty name value, .notifyRefresh] ∧
        (o.setProperty types name value).Wrote types name value ∧
        o' = (o.setProperty types name value).notifyRefresh
    else (body types api o c).effects = [] ∧ o' = o

/-- An `addProperty` for `objectName` has a type whose default value is a
    text. -/
def NamesText : Call P → Prop
  | .addProperty junk params =>
      extractParamStr api params (ascii "name") = some (ascii "objectName") →
        ∀ type_str v, extractParamStr api params (ascii "type") = some type_str →
          (types.fromName type_str).bind (types.defaultValue junk) = some v →
            (v.toQString types).isSome
  | _ => True

end spec

/-! ### Bodies -/

section code

variable {P : Type} {types : MetaTypes} {api : VariantApi P} {o : Object}

@[simp] theorem run_refuse : Body.refuse.run types o = invalidParams o := rfl

@[simp] theorem run_update (name : Bytes) (value : Option PropValue) (text : Bytes) :
    (Body.update name value text).run types o =
      .returned (o.setProperty types name value).notifyRefresh (text, NoError) := rfl

@[simp] theorem effects_update (name : Bytes) (value : Option PropValue) (text : Bytes) :
    (Body.update name value text).effects = [.setProperty name value, .notifyRefresh] := rfl

variable (types api o) in
theorem addPropertyBody_cases (junk : Int) (params : List (Bytes × P)) :
    addPropertyBody types api junk params o = .refuse ∨
      ∃ name type_str v text, extractParamStr api params (ascii "name") = some name ∧
        extractParamStr api params (ascii "type") = some type_str ∧
        (types.fromName type_str).bind (types.defaultValue junk) = some v ∧
        addPropertyBody types api junk params o = .update name (some v) text := by
  unfold addPropertyBody
  split
  · exact Or.inl rfl
  · next name hname =>
    split
    · exact Or.inl rfl
    · split
      · exact Or.inl rfl
      · next type_str htype =>
        split
        · exact Or.inl rfl
        · next v hv => exact Or.inr ⟨name, type_str, v, _, hname, htype, hv, rfl⟩

variable (api o) in
theorem deletePropertyBody_cases (params : List (Bytes × P)) :
    deletePropertyBody api params o = .refuse ∨
      ∃ name text, extractParamStr api params (ascii "name") = some name ∧
        name ∈ o.dynamic.dynamicPropertyNames ∧
        deletePropertyBody api params o = .update name none text := by
  unfold deletePropertyBody
  split
  · exact Or.inl rfl
  · next name hname =>
    split
    · next hmem => exact Or.inr ⟨name, _, hname, hmem, rfl⟩
    · exact Or.inl rfl

variable (api o) in
/-- The declared property is of type `QString`, so no attribute of it is
    ever set. -/
theorem setPropertyAttrBody_cases (junk : Int) (params : List (Bytes × P)) :
    setPropertyAttrBody api junk params o = .refuse ∨
      setPropertyAttrBody api junk params o = .nullDeref ∨
      setPropertyAttrBody api junk params o = .badCast ∨
      ∃ property v text, extractParamStr api params (ascii "property") = some property ∧
        property ≠ ascii "objectName" ∧
        setPropertyAttrBody api junk params o = .update property (some v) text := by
  unfold setPropertyAttrBody
  split
  · exact Or.inl rfl
  · next property hproperty =>
    split
    · exact Or.inl rfl
    · split
      · exact Or.inl rfl
      · split
        · exact Or.inr (Or.inl rfl)
        · next prop_v hv =>
          split
          · next hobject =>
            have hname : property ≠ ascii "objectName" := by
              intro heq
              unfold Object.property at hv
              rw [if_pos heq] at hv
              rw [← Option.some.inj hv] at hobject
              cases hobject
            exact Or.inr (Or.inr (Or.inr ⟨property, _, _, hproperty, hname, rfl⟩))
          · exact Or.inr (Or.inr (Or.inl rfl))

theorem run_addPropertyBody (junk : Int) (params : List (Bytes × P)) (o : Object) :
    (addPropertyBody types api junk params o).run types o =
      addProperty types api junk params o := by
  unfold addPropertyBody addProperty
  cases extractParamStr api params (ascii "name") with
  | none => rfl
  | some name =>
    dsimp only
    by_cases hmem : name ∈ o.dynamic.dynamicPropertyNames
    · rw [if_pos hmem, if_pos hmem, run_refuse]
    · rw [if_neg hmem, if_neg hmem]
      cases extractParamStr api params (ascii "type") with
      | none => rfl
      | some type_str =>
        dsimp only
        cases (types.fromName type_str).bind (types.defaultValue junk) with
        | none => rfl
        | some v => rfl

theorem run_deletePropertyBody (params : List (Bytes × P)) (o : Object) :
    (deletePropertyBody api params o).run types o = deleteProperty types api params o := by
  unfold deletePropertyBody deleteProperty
  cases extractParamStr api params (ascii "name") with
  | none => rfl
  | some name =>
    dsimp only
    by_cases hmem : name ∈ o.dynamic.dynamicPropertyNames
    · rw [if_pos hmem, if_pos hmem, run_update]
    · rw [if_neg hmem, if_neg hmem, run_refuse]

theorem run_setPropertyAttrBody (junk : Int) (params : List (Bytes × P)) (o : Object) :
    (setPropertyAttrBody api junk params o).run types o =
      setPropertyAttr types api junk params o := by
  unfold setPropertyAttrBody setPropertyAttr
  cases extractParamStr api params (ascii "property") with
  | none => rfl
  | some property =>
    dsimp only
    cases extractParamStr api params (ascii "attribute") with
    | none => rfl
    | some attr =>
      dsimp only
      cases params.lookup (ascii "data") with
      | none => rfl
      | some data =>
        dsimp only
        cases o.property property with
        | none => rfl
        | some prop_v =>
          dsimp only
          by_cases hobject : prop_v.metaType.isQObject
          · rw [if_pos hobject, if_pos hobject, run_update]
          · rw [if_neg hobject, if_neg hobject]
            rfl

/-- A body does what the method does. -/
theorem run_body (o : Object) (c : Call P) :
    (body types api o c).run types o = call types api o c := by
  cases c with
  | addProperty junk params => exact run_addPropertyBody junk params o
  | deleteProperty params => exact run_deletePropertyBody params o
  | listProperties => rfl
  | setPropertyAttr junk params => exact run_setPropertyAttrBody junk params o

/-! ### Writing -/

/-- A dynamic property takes every value. -/
theorem wrote_setProperty {name : Bytes} (h : name ≠ ascii "objectName") (o : Object)
    (value : Option PropValue) : (o.setProperty types name value).Wrote types name value := by
  unfold Object.Wrote Object.setProperty
  rw [if_neg h, if_neg h]
  cases value with
  | some v => exact Table.property_setProperty_self o.dynamic name v
  | none =>
    apply Table.property_eq_none_iff.mpr
    intro hmem
    rw [Table.mem_dynamicPropertyNames_setProperty_none] at hmem
    exact hmem.2 rfl

/-- The declared property takes a text. -/
theorem wrote_objectName_iff (o : Object) (v : PropValue) :
    (o.setProperty types (ascii "objectName") (some v)).Wrote types (ascii "objectName") (some v) ↔
      (v.toQString types).isSome := by
  unfold Object.Wrote Object.setProperty
  rw [if_pos rfl, if_pos rfl]
  cases v with
  | other type =>
    show types.toQString type = some ((types.toQString type).getD o.objectName) ↔
      (types.toQString type).isSome
    cases types.toQString type with
    | none => simp
    | some text => simp
  | _ => simp [PropValue.toQString]

/-! ### One call -/

/-- An early return. -/
theorem signals_of_refuse {c : Call P} (hbody : body types api o c = .refuse) :
    Signals types api o c := by
  intro o' ret hcall
  rw [← run_body, hbody, run_refuse] at hcall
  cases hcall
  rw [if_neg (fun h => by cases h.2), hbody]
  exact ⟨rfl, rfl⟩

/-- A call that does not return. -/
theorem signals_of_undefined {c : Call P}
    (hbody : body types api o c = .nullDeref ∨ body types api o c = .badCast) :
    Signals types api o c := by
  intro o' ret hcall
  rw [← run_body] at hcall
  rcases hbody with hbody | hbody
  · rw [hbody] at hcall
    cases hcall
  · rw [hbody] at hcall
    cases hcall

/-- An update is in order when its property takes the value. -/
theorem signals_update_iff {c : Call P} {name text : Bytes} {value : Option PropValue}
    (hupdates : c.updates = true) (hname : c.property api = some name)
    (hbody : body types api o c = .update name value text) :
    Signals types api o c ↔ (o.setProperty types name value).Wrote types name value := by
  have hcall : call types api o c =
      .returned (o.setProperty types name value).notifyRefresh (text, NoError) := by
    rw [← run_body, hbody, run_update]
  constructor
  · intro h
    have hret := h _ _ hcall
    rw [if_pos ⟨hupdates, rfl⟩] at hret
    obtain ⟨name', value', _, heffects, hwrote, _⟩ := hret
    rw [hbody, effects_update] at heffects
    injection heffects with hset
    injection hset with hname' hvalue'
    rw [hname', hvalue']
    exact hwrote
  · intro hwrote o' ret hreturned
    rw [hcall] at hreturned
    cases hreturned
    rw [if_pos ⟨hupdates, rfl⟩, hbody]
    exact ⟨name, value, hname, rfl, hwrote, rfl⟩

/-- No dynamic property has the name of the declared one. -/
def Undeclared (o : Object) : Prop := ascii "objectName" ∉ o.dynamic.dynamicPropertyNames

theorem signals_call_iff (ho : Undeclared o) (c : Call P) :
    Signals types api o c ↔ NamesText types api c := by
  cases c with
  | addProperty junk params =>
    rcases addPropertyBody_cases types api o junk params with
      hbody | ⟨name, type_str, v, text, hname, htype, hv, hbody⟩
    · refine iff_of_true (signals_of_refuse hbody) ?_
      -- nothing else refuses an `objectName` with a type that has a value
      intro hname type_str v htype hv
      have hupdate : addPropertyBody types api junk params o = .update (ascii "objectName") (some v)
          (ascii "Property <" ++ ascii "objectName" ++ ascii "> type <" ++ type_str ++
            ascii "> added") := by
        unfold addPropertyBody
        rw [hname]
        dsimp only
        rw [if_neg ho, htype]
        dsimp only
        rw [hv]
      rw [hupdate] at hbody
      cases hbody
    · rw [signals_update_iff (c := .addProperty junk params) rfl hname hbody]
      by_cases hobject : name = ascii "objectName"
      · rw [hobject, wrote_objectName_iff]
        constructor
        · intro htext _ type_str' v' htype' hv'
          rw [htype] at htype'
          rw [← Option.some.inj htype', hv] at hv'
          rw [← Option.some.inj hv']
          exact htext
        · intro htext
          exact htext (hobject ▸ hname) type_str v htype hv
      · refine iff_of_true (wrote_setProperty hobject o (some v)) ?_
        intro hname'
        rw [hname] at hname'
        exact absurd (Option.some.inj hname') hobject
  | deleteProperty params =>
    refine iff_of_true ?_ trivial
    rcases deletePropertyBody_cases api o params with
      hbody | ⟨name, text, hname, hmem, hbody⟩
    · exact signals_of_refuse hbody
    · apply (signals_update_iff (c := .deleteProperty params) rfl hname hbody).mpr
      apply wrote_setProperty
      intro hobject
      exact ho (hobject ▸ hmem)
  | listProperties =>
    refine iff_of_true ?_ trivial
    intro o' ret hcall
    cases hcall
    rw [if_neg (fun h => by cases h.1)]
    exact ⟨rfl, rfl⟩
  | setPropertyAttr junk params =>
    refine iff_of_true ?_ trivial
    rcases setPropertyAttrBody_cases api o junk params with
      hbody | hbody | hbody | ⟨property, v, text, hname, hobject, hbody⟩
    · exact signals_of_refuse hbody
    · exact signals_of_undefined (Or.inl hbody)
    · exact signals_of_undefined (Or.inr hbody)
    · apply (signals_update_iff (c := .setPropertyAttr junk params) rfl hname hbody).mpr
      exact wrote_setProperty hobject o (some v)

/-! ### Reachable states -/

/-- What happens to an object: calls, and the timer of the refresh thread. -/
inductive Event (P : Type) where
  | call (c : Call P)
  /-- `refresh_semaphore_.try_acquire()`. -/
  | try_acquire

variable (types api) in
def eventStep (o : Object) : Event P → Option Object
  | .call c => step types api o c
  | .try_acquire => some { o with refresh_semaphore := o.refresh_semaphore - 1 }

theorem undeclared_setProperty (ho : Undeclared o) (name : Bytes) (value : Option PropValue) :
    Undeclared (o.setProperty types name value).notifyRefresh := by
  unfold Undeclared Object.setProperty Object.notifyRefresh
  by_cases hobject : name = ascii "objectName"
  · rw [if_pos hobject]
    split
    · exact ho
    · exact ho
  · rw [if_neg hobject]
    intro hmem
    cases value with
    | some v =>
      rw [Table.mem_dynamicPropertyNames_setProperty_some] at hmem
      exact hmem.elim ho fun heq => hobject heq.symm
    | none =>
      rw [Table.mem_dynamicPropertyNames_setProperty_none] at hmem
      exact ho hmem.1

/-- A call lists the properties, or its body is one of four. -/
theorem body_cases (types : MetaTypes) (api : VariantApi P) (o : Object) (c : Call P) :
    c = .listProperties ∨ body types api o c = .refuse ∨ body types api o c = .nullDeref ∨
      body types api o c = .badCast ∨
        ∃ name value text, body types api o c = .update name value text := by
  cases c with
  | addProperty junk params =>
    rcases addPropertyBody_cases types api o junk params with
      hbody | ⟨name, _, v, text, _, _, _, hbody⟩
    · exact Or.inr (Or.inl hbody)
    · exact Or.inr (Or.inr (Or.inr (Or.inr ⟨name, some v, text, hbody⟩)))
  | deleteProperty params =>
    rcases deletePropertyBody_cases api o params with
      hbody | ⟨name, text, _, _, hbody⟩
    · exact Or.inr (Or.inl hbody)
    · exact Or.inr (Or.inr (Or.inr (Or.inr ⟨name, none, text, hbody⟩)))
  | listProperties => exact Or.inl rfl
  | setPropertyAttr junk params =>
    rcases setPropertyAttrBody_cases api o junk params with
      hbody | hbody | hbody | ⟨property, v, text, _, _, hbody⟩
    · exact Or.inr (Or.inl hbody)
    · exact Or.inr (Or.inr (Or.inl hbody))
    · exact Or.inr (Or.inr (Or.inr (Or.inl hbody)))
    · exact Or.inr (Or.inr (Or.inr (Or.inr ⟨property, some v, text, hbody⟩)))

theorem undeclared_call {o' : Object} {ret : Ret} (ho : Undeclared o) (c : Call P)
    (hcall : call types api o c = .returned o' ret) : Undeclared o' := by
  rcases body_cases types api o c with rfl | hbody | hbody | hbody | ⟨name, value, text, hbody⟩
  · cases hcall
    exact ho
  all_goals
    rw [← run_body, hbody] at hcall
    cases hcall
  · exact ho
  · exact undeclared_setProperty ho name value

theorem undeclared_step {o' : Object} (ho : Undeclared o) (e : Event P)
    (h : eventStep types api o e = some o') : Undeclared o' := by
  cases e with
  | try_acquire => exact Option.some.inj h ▸ ho
  | call c =>
    obtain ⟨ret, hcall⟩ := step_eq_some_iff.mp h
    exact undeclared_call ho c hcall

end code

/-- **Writes and signals**: in every state that calls and refreshes lead to,
    a call reports an error without effect, or it reports success, has
    written its property and has then signalled once, exactly when it is no
    `addProperty` for `objectName` with a type that is no text. -/
theorem signals_iff {P : Type} (types : MetaTypes) (api : VariantApi P) (name : Bytes)
    (events : List (Event P)) (o : Object)
    (hrun : System.run (eventStep types api) (fresh name) events = some o) (c : Call P) :
    Signals types api o c ↔ NamesText types api c := by
  have hfresh : Undeclared (fresh name) := List.not_mem_nil
  have ho : Undeclared o := System.run_keeps (fun _ e _ ho => undeclared_step ho e) hfresh hrun
  exact signals_call_iff ho c

/-! ### Fixed calls -/

/-- After an added link and a refresh, the object takes a text for its name. -/
theorem signals_iff_text :
    Signals withQString stringApi ⟨ascii "Root", [(ascii "Link", .hyperLink [] [])], 0⟩
      (.addProperty 0 (addRequest (ascii "objectName") (ascii "QString"))) := by
  apply (signals_iff withQString stringApi (ascii "Root")
    [.call (.addProperty 0 (addRequest (ascii "Link") (ascii "HyperLink"))), .try_acquire] _
    (by decide) _).mpr
  intro _ type_str v htype hv
  have hqstring : extractParamStr stringApi (addRequest (ascii "objectName") (ascii "QString"))
      (ascii "type") = some (ascii "QString") := by decide
  have hvalue : (withQString.fromName (ascii "QString")).bind (withQString.defaultValue 0) =
      some (.other (ascii "QString")) := by decide
  rw [hqstring] at htype
  rw [← Option.some.inj htype, hvalue] at hv
  rw [← Option.some.inj hv]
  decide

/-- A new object is told to take a link for its name: nothing is written,
    and success is reported and signalled. -/
theorem not_signals_objectName : ¬ ∀ (name : Bytes) (events : List (Event Bytes)) (o : Object),
    System.run (eventStep withQString stringApi) (fresh name) events = some o →
      ∀ c, Signals withQString stringApi o c := by
  intro hall
  have hsignals := hall (ascii "Root") [] (fresh (ascii "Root")) rfl
    (.addProperty 0 (addRequest (ascii "objectName") (ascii "HyperLink")))
    ⟨ascii "Root", [], 1⟩ (ascii "Property <objectName> type <HyperLink> added", NoError)
    (by decide)
  rw [if_pos ⟨rfl, rfl⟩] at hsignals
  obtain ⟨name, value, hname, heffects, hwrote, _⟩ := hsignals
  injection heffects with hset
  injection hset with hobject hvalue
  rw [← hobject, ← hvalue] at hwrote
  exact absurd hwrote (by unfold Object.Wrote; decide)

end DatabaseObj
