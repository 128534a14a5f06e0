import JsonRpcServer.Database.Store

/-! # Attributes of a Property

  `setPropertyAttr` copies the value of a property, sets one attribute of
  the copy and copies the result back into the object. What it sets has to
  survive two copy constructors, and nobody looks at what `setProperty`
  returns.

  ## Main results

  * `setPropertyAttr_setsExactly_iff`: the call sets its attribute and
    nothing else exactly when the attribute is declared, the data converts
    to its type, and the level of a `Header` comes out right; calls of this
    kind for different attributes can be made in any order.

  ## Proof idea

  The attributes determine a value (`eq_of_attribute`). A run of calls gives
  each attribute the data of its own request and leaves the others alone,
  whatever the order of the requests (`Assigned`).
-/

namespace DatabaseObj

open Bytes CString JsonRPCServer JsonRPCErrorCodes

/-! ### Reading an attribute -/

/-- The declared types of the attributes. -/
inductive AttrType where
  | QByteArray
  | int
  | QString
  deriving DecidableEq, Repr

/-- What an attribute reads as. -/
inductive AttrValue where
  | byteArray (data : Bytes)
  | int (i : Int)
  | string (s : Bytes)
  deriving DecidableEq, Repr

/-- The `Q_PROPERTY` declarations; every `QObject` has an `objectName`. -/
def MetaType.declared (t : MetaType) (attr : Bytes) : Option AttrType :=
  match t with
  | .HyperLink =>
      if attr = ascii "url" then some .QByteArray
      else if attr = ascii "text" then some .QByteArray
      else if attr = ascii "objectName" then some .QString
      else none
  | .Text =>
      if attr = ascii "text" then some .QByteArray
      else if attr = ascii "objectName" then some .QString
      else none
  | .Header =>
      if attr = ascii "text" then some .QByteArray
      else if attr = ascii "level" then some .int
      else if attr = ascii "objectName" then some .QString
      else none
  | .other _ => none

/-- `property(attr)` of a stored value. It is a copy, and the copy
    constructors start from `QObject(nullptr)`: the object name is empty and
    there are no dynamic properties. -/
def PropValue.attribute (v : PropValue) (attr : Bytes) : Option AttrValue :=
  match v with
  | .hyperLink url_ text_ =>
      if attr = ascii "url" then some (.byteArray url_)
      else if attr = ascii "text" then some (.byteArray text_)
      else if attr = ascii "objectName" then some (.string [])
      else none
  | .text text_ =>
      if attr = ascii "text" then some (.byteArray text_)
      else if attr = ascii "objectName" then some (.string [])
      else none
  | .header text_ level_ =>
      if attr = ascii "text" then some (.byteArray text_)
      else if attr = ascii "level" then some (.int level_)
      else if attr = ascii "objectName" then some (.string [])
      else none
  | .other _ => none

/-- The conversions of `VariantApi`, and the one to the type of an object
    name. -/
structure Conversions (P : Type) extends VariantApi P where
  /-- Conversion to a property of type `QString`, where there is one. -/
  asQString : P → Option Bytes

variable {P : Type} (conv : Conversions P)

/-- Data converted to a type. -/
def AttrType.convert (data : P) : AttrType → Option AttrValue
  | .QByteArray => (conv.asByteArray data).map .byteArray
  | .int => (conv.asInt data).map .int
  | .QString => (conv.asQString data).map .string

/-- Data converted to the declared type of an attribute. -/
def MetaType.converted (t : MetaType) (attr : Bytes) (data : P) : Option AttrValue :=
  (t.declared attr).bind (AttrType.convert conv data)

/-- The value after the call: copied, changed, and copied back. -/
def PropValue.edited (junk : Int) (v : PropValue) (attr : Bytes) (data : P) : PropValue :=
  ((v.copied junk).setProperty conv.toVariantApi attr data).copied junk

/-- An attribute and nothing else is set. -/
structure PropValue.SetsOnly (v v' : PropValue) (attr : Bytes) (data : P) : Prop where
  metaType_eq : v'.metaType = v.metaType
  reads_back : ∃ x, v.metaType.converted conv attr data = some x ∧ v'.attribute attr = some x
  others : ∀ b ≠ attr, v'.attribute b = v.attribute b

/-- The attribute is declared and the data converts to its type; an object
    name is lost with the copy, so it must be set to nothing; and the memory
    in which a `Header` is copied happens to hold the level that is due. -/
def PropValue.Survives (junk : Int) (v : PropValue) (attr : Bytes) (data : P) : Prop :=
  (v.metaType.converted conv attr data).isSome ∧
    (attr = ascii "objectName" → conv.asQString data = some []) ∧
      ∀ text_ level_, v = .header text_ level_ →
        junk = if attr = ascii "level" then (conv.asInt data).getD level_ else level_

theorem metaType_edited (junk : Int) (v : PropValue) (attr : Bytes) (data : P) :
    (v.edited conv junk attr data).metaType = v.metaType := by
  unfold PropValue.edited
  cases v <;> simp only [PropValue.copied, PropValue.setProperty] <;> split_ifs <;> rfl

theorem attribute_level (v : PropValue) : v.attribute (ascii "level") =
    match v with
    | .header _ level_ => some (.int level_)
    | _ => none := by
  have h₁ : ascii "level" ≠ ascii "text" := by decide
  have h₂ : ascii "level" ≠ ascii "url" := by decide
  have h₃ : ascii "level" ≠ ascii "objectName" := by decide
  cases v <;> simp [PropValue.attribute, h₁, h₂, h₃]

theorem attribute_objectName (v : PropValue) : v.attribute (ascii "objectName") =
    if v.metaType.isQObject then some (.string []) else none := by
  have h₁ : ascii "objectName" ≠ ascii "text" := by decide
  have h₂ : ascii "objectName" ≠ ascii "url" := by decide
  have h₃ : ascii "objectName" ≠ ascii "level" := by decide
  cases v <;> simp [PropValue.attribute, PropValue.metaType, MetaType.isQObject, h₁, h₂, h₃]

/-- The attribute that is set. -/
theorem attribute_edited_self (junk : Int) (v : PropValue) {attr : Bytes} (data : P)
    (hlevel : attr ≠ ascii "level") (hname : attr ≠ ascii "objectName") :
    (v.edited conv junk attr data).attribute attr =
      (v.metaType.converted conv attr data).or (v.attribute attr) := by
  unfold PropValue.edited MetaType.converted
  cases v with
  | hyperLink url_ text_ =>
    simp only [PropValue.copied, PropValue.setProperty, PropValue.metaType, MetaType.declared,
      PropValue.attribute, if_neg hname]
    split_ifs <;> cases hd : conv.asByteArray data <;> simp_all [AttrType.convert]
  | text text_ =>
    simp only [PropValue.copied, PropValue.setProperty, PropValue.metaType, MetaType.declared,
      PropValue.attribute, if_neg hname]
    split_ifs <;> cases hd : conv.asByteArray data <;> simp_all [AttrType.convert]
  | header text_ level_ =>
    simp only [PropValue.copied, PropValue.setProperty, PropValue.metaType, MetaType.declared,
      PropValue.attribute, if_neg hname, if_neg hlevel]
    split_ifs <;> cases hd : conv.asByteArray data <;> simp_all [AttrType.convert]
  | other name => rfl

/-- The attributes that are not set. -/
theorem attribute_edited_ne (junk : Int) (v : PropValue) {attr b : Bytes} (data : P)
    (hb : b ≠ attr) (hlevel : b ≠ ascii "level") :
    (v.edited conv junk attr data).attribute b = v.attribute b := by
  unfold PropValue.edited
  cases v with
  | hyperLink url_ text_ =>
    simp only [PropValue.copied, PropValue.setProperty]
    split_ifs <;> simp_all [PropValue.attribute]
  | text text_ =>
    simp only [PropValue.copied, PropValue.setProperty]
    split_ifs <;> simp_all [PropValue.attribute]
  | header text_ level_ =>
    simp only [PropValue.copied, PropValue.setProperty]
    split_ifs <;> simp_all [PropValue.attribute]
  | other name => rfl

/-- A copied `Header` has the level its memory held. -/
theorem attribute_edited_level (junk : Int) (v : PropValue) (attr : Bytes) (data : P) :
    (v.edited conv junk attr data).attribute (ascii "level") =
      (v.attribute (ascii "level")).map fun _ => .int junk := by
  rw [attribute_level, attribute_level]
  unfold PropValue.edited
  cases v with
  | other name => rfl
  | _ =>
    simp only [PropValue.copied, PropValue.setProperty]
    split_ifs <;> rfl

theorem declared_objectName (t : MetaType) :
    t.declared (ascii "objectName") = if t.isQObject then some .QString else none := by
  have h₁ : ascii "objectName" ≠ ascii "text" := by decide
  have h₂ : ascii "objectName" ≠ ascii "url" := by decide
  have h₃ : ascii "objectName" ≠ ascii "level" := by decide
  cases t <;> simp [MetaType.declared, MetaType.isQObject, h₁, h₂, h₃]

theorem declared_level (t : MetaType) :
    t.declared (ascii "level") = if t = .Header then some .int else none := by
  have h₁ : ascii "level" ≠ ascii "text" := by decide
  have h₂ : ascii "level" ≠ ascii "url" := by decide
  have h₃ : ascii "level" ≠ ascii "objectName" := by decide
  cases t <;> simp [MetaType.declared, h₁, h₂, h₃]

/-- An attribute that is set has survived the copies. -/
theorem PropValue.SetsOnly.survives {junk : Int} {v : PropValue} {attr : Bytes} {data : P}
    (h : v.SetsOnly conv (v.edited conv junk attr data) attr data) :
    v.Survives conv junk attr data := by
  obtain ⟨_, ⟨x, hx, hread⟩, hothers⟩ := h
  refine ⟨Option.isSome_of_eq_some hx, ?_, ?_⟩
  · -- the copy has no object name
    rintro rfl
    rw [attribute_objectName, metaType_edited] at hread
    unfold MetaType.converted at hx
    rw [declared_objectName] at hx
    split at hread
    · next hobject =>
      rw [if_pos hobject] at hx
      rw [← Option.some.inj hread] at hx
      obtain ⟨s, hs, hnil⟩ := Option.map_eq_some_iff.mp hx
      rw [hs, AttrValue.string.inj hnil]
    · cases hread
  · -- the copy has the level of its memory
    rintro text_ level_ rfl
    by_cases hlevel : attr = ascii "level"
    · subst hlevel
      rw [attribute_edited_level, attribute_level] at hread
      unfold MetaType.converted at hx
      rw [declared_level, ← Option.some.inj hread] at hx
      obtain ⟨i, hi, hjunk⟩ := Option.map_eq_some_iff.mp hx
      rw [if_pos rfl, hi]
      exact (AttrValue.int.inj hjunk).symm
    · have hkept := hothers (ascii "level") (fun h => hlevel h.symm)
      rw [attribute_edited_level, attribute_level] at hkept
      rw [if_neg hlevel]
      exact AttrValue.int.inj (Option.some.inj hkept)

/-- An attribute that survives reads back. -/
theorem PropValue.Survives.reads_back {junk : Int} {v : PropValue} {attr : Bytes} {data : P}
    (h : v.Survives conv junk attr data) {x : AttrValue}
    (hx : v.metaType.converted conv attr data = some x) :
    (v.edited conv junk attr data).attribute attr = some x := by
  obtain ⟨_, hname, hheader⟩ := h
  by_cases hlevel : attr = ascii "level"
  · subst hlevel
    unfold MetaType.converted at hx
    rw [declared_level] at hx
    cases v with
    | header text_ level_ =>
      obtain ⟨i, hi, hxi⟩ := Option.map_eq_some_iff.mp hx
      have hjunk := hheader text_ level_ rfl
      rw [if_pos rfl, hi] at hjunk
      rw [attribute_edited_level, attribute_level, ← hxi, hjunk]
      rfl
    | _ => cases hx
  by_cases hobject : attr = ascii "objectName"
  · subst hobject
    unfold MetaType.converted at hx
    rw [declared_objectName] at hx
    rw [attribute_objectName, metaType_edited]
    split at hx
    · next hq =>
      rw [if_pos hq, ← hx]
      show some (AttrValue.string []) = (conv.asQString data).map .string
      rw [hname rfl]
      rfl
    · cases hx
  · rw [attribute_edited_self conv junk v data hlevel hobject, hx]
    rfl

/-- The other attributes are then kept. -/
theorem PropValue.Survives.others {junk : Int} {v : PropValue} {attr : Bytes} {data : P}
    (h : v.Survives conv junk attr data) {b : Bytes} (hb : b ≠ attr) :
    (v.edited conv junk attr data).attribute b = v.attribute b := by
  by_cases hlevel : b = ascii "level"
  · subst hlevel
    rw [attribute_edited_level, attribute_level]
    cases v with
    | header text_ level_ =>
      have hjunk := h.2.2 text_ level_ rfl
      rw [if_neg fun h => hb h.symm] at hjunk
      rw [hjunk]
      rfl
    | _ => rfl
  · exact attribute_edited_ne conv junk v data hb hlevel

/-- **One call**: the attribute and nothing else is set exactly when it
    survives the copies. -/
theorem setsOnly_edited_iff (junk : Int) (v : PropValue) (attr : Bytes) (data : P) :
    v.SetsOnly conv (v.edited conv junk attr data) attr data ↔ v.Survives conv junk attr data := by
  constructor
  · exact fun h => h.survives
  · intro h
    obtain ⟨x, hx⟩ := Option.isSome_iff_exists.mp h.1
    exact ⟨metaType_edited conv junk v attr data, ⟨x, hx, h.reads_back conv hx⟩,
      fun b hb => h.others conv hb⟩

/-! ### One call -/

variable (types : MetaTypes)

/-- The call sets one attribute of one property. -/
def SetsExactly (o o' : Object) (property attr : Bytes) (data : P) : Prop :=
  (∃ v v', o.property property = some v ∧ o'.property property = some v' ∧
      v.SetsOnly conv v' attr data) ∧
    ∀ q ≠ property, o'.property q = o.property q

/-- The call is a `setPropertyAttr` of this property whose attribute survives. -/
def Edits (property : Bytes) (o : Object) : Call P → Prop
  | .setPropertyAttr junk params => ∃ attr data v,
      Checked conv.toVariantApi params property attr data ∧ o.property property = some v ∧
        v.Survives conv junk attr data
  | _ => False

/-- A call that returns has replaced the value in its place. -/
theorem object_of_returned {junk : Int} {params : List (Bytes × P)} {o o' : Object} {ret : Ret}
    {property attr : Bytes} {data : P}
    (hchecked : Checked conv.toVariantApi params property attr data)
    (h : setPropertyAttr types conv.toVariantApi junk params o = .returned o' ret) :
    ∃ v, o.property property = some v ∧ property ≠ ascii "objectName" ∧
      v.metaType.isQObject = true ∧
      o' = { o with
        dynamic := o.dynamic.setProperty property (some (v.edited conv junk attr data))
        refresh_semaphore := o.refresh_semaphore + 1 } := by
  rw [setPropertyAttr_checked types conv.toVariantApi hchecked] at h
  cases hv : o.property property with
  | none =>
    rw [hv] at h
    cases h
  | some v =>
    rw [hv] at h
    dsimp only at h
    split at h
    · next hobject =>
      -- the declared property is no `QObject`
      have hname : property ≠ ascii "objectName" := by
        intro heq
        unfold Object.property at hv
        rw [if_pos heq] at hv
        rw [← Option.some.inj hv] at hobject
        cases hobject
      refine ⟨v, rfl, hname, hobject, ?_⟩
      rw [← (Outcome.returned.inj h).1]
      unfold Object.notifyRefresh Object.setProperty
      rw [if_neg hname]
      rfl
    · cases h

theorem property_of_ne {o : Object} {name : Bytes} (h : name ≠ ascii "objectName") :
    o.property name = o.dynamic.property name := by
  unfold Object.property
  exact if_neg h

/-- **What a call sets**: exactly its attribute, when the attribute survives. -/
theorem setsExactly_iff {junk : Int} {params : List (Bytes × P)} {o o' : Object} {ret : Ret}
    {property attr : Bytes} {data : P}
    (hchecked : Checked conv.toVariantApi params property attr data)
    (h : setPropertyAttr types conv.toVariantApi junk params o = .returned o' ret) :
    SetsExactly conv o o' property attr data ↔
      ∃ v, o.property property = some v ∧ v.Survives conv junk attr data := by
  obtain ⟨v, hv, hname, _, rfl⟩ := object_of_returned conv types hchecked h
  have hself : ({ o with
      dynamic := o.dynamic.setProperty property (some (v.edited conv junk attr data))
      refresh_semaphore := o.refresh_semaphore + 1 } : Object).property property =
      some (v.edited conv junk attr data) := by
    rw [property_of_ne hname]
    exact Table.property_setProperty_self o.dynamic property _
  unfold SetsExactly
  rw [hself, hv]
  constructor
  · intro h'
    obtain ⟨⟨w, w', hw, hw', hsets⟩, _⟩ := h'
    cases hw
    cases hw'
    exact ⟨v, rfl, (setsOnly_edited_iff conv junk v attr data).mp hsets⟩
  · intro h'
    obtain ⟨w, hw, hsurvives⟩ := h'
    cases hw
    refine ⟨⟨v, _, rfl, rfl, (setsOnly_edited_iff conv junk v attr data).mpr hsurvives⟩, ?_⟩
    intro q hq
    unfold Object.property
    by_cases hobject : q = ascii "objectName"
    · rw [if_pos hobject, if_pos hobject]
    · rw [if_neg hobject, if_neg hobject]
      exact Table.property_setProperty_ne o.dynamic hq (some (v.edited conv junk attr data))

/-! ### Calls in any order -/

/-- The attributes determine a value. -/
theorem eq_of_attribute {v w : PropValue} (hobject : v.metaType.isQObject = true)
    (htype : w.metaType = v.metaType) (h : ∀ b, w.attribute b = v.attribute b) : w = v := by
  have htext := h (ascii "text")
  have hurl := h (ascii "url")
  have hlevel := h (ascii "level")
  cases v with
  | other name => cases hobject
  | hyperLink url_ text_ =>
    cases w with
    | hyperLink url_' text_' =>
      have hne : ascii "text" ≠ ascii "url" := by decide
      simp only [PropValue.attribute, if_neg hne, if_pos] at htext hurl
      cases htext
      cases hurl
      rfl
    | _ => cases htype
  | text text_ =>
    cases w with
    | text text_' =>
      simp only [PropValue.attribute, if_pos] at htext
      cases htext
      rfl
    | _ => cases htype
  | header text_ level_ =>
    cases w with
    | header text_' level_' =>
      simp only [PropValue.attribute, if_pos] at htext
      rw [attribute_level, attribute_level] at hlevel
      cases htext
      cases hlevel
      rfl
    | _ => cases htype

/-- The parameters of a call. -/
def Call.params : Call P → List (Bytes × P)
  | .addProperty _ params | .deleteProperty params | .setPropertyAttr _ params => params
  | .listProperties => []

/-- The attribute a request names. -/
def attributeOf (params : List (Bytes × P)) : Option Bytes :=
  extractParamStr conv.toVariantApi params (ascii "attribute")

/-- `v'` is `v` with the attributes of these requests set. -/
structure Assigned (requests : List (List (Bytes × P))) (property : Bytes) (v v' : PropValue) :
    Prop where
  metaType_eq : v'.metaType = v.metaType
  set : ∀ params ∈ requests, ∀ attr data, Checked conv.toVariantApi params property attr data →
    v'.attribute attr = v.metaType.converted conv attr data
  kept : ∀ b, (∀ params ∈ requests, attributeOf conv params ≠ some b) →
    v'.attribute b = v.attribute b

variable {conv types}

/-- A request in front sets its own attribute, if the others leave it alone. -/
theorem Assigned.cons {requests : List (List (Bytes × P))} {params : List (Bytes × P)}
    {property attr : Bytes} {data : P} {v v₁ v' : PropValue}
    (hchecked : Checked conv.toVariantApi params property attr data)
    (hsets : v.SetsOnly conv v₁ attr data)
    (hfresh : attributeOf conv params ∉ requests.map (attributeOf conv))
    (h : Assigned conv requests property v₁ v') :
    Assigned conv (params :: requests) property v v' where
  metaType_eq := h.metaType_eq.trans hsets.metaType_eq
  set params' hmem attr' data' hchecked' := by
    rcases List.mem_cons.mp hmem with rfl | hmem
    · obtain rfl := Option.some.inj (hchecked'.2.1.symm.trans hchecked.2.1)
      obtain rfl := Option.some.inj (hchecked'.2.2.symm.trans hchecked.2.2)
      have hlater : v'.attribute attr' = v₁.attribute attr' := by
        apply h.kept
        intro params hmem heq
        apply hfresh
        rw [show attributeOf conv params' = some attr' from hchecked.2.1, ← heq]
        exact List.mem_map_of_mem hmem
      obtain ⟨x, hx, hread⟩ := hsets.reads_back
      rw [hlater, hread, hx]
    · rw [h.set params' hmem attr' data' hchecked', hsets.metaType_eq]
  kept b hb := by
    have hne : b ≠ attr := by
      rintro rfl
      exact hb params List.mem_cons_self hchecked.2.1
    rw [h.kept b fun params' hmem => hb params' (List.mem_cons_of_mem _ hmem)]
    exact hsets.others b hne

/-- Each call sets its own attribute, and the later ones leave it alone. -/
theorem assigned_of_run {property : Bytes} : ∀ {calls : List (Call P)} {o o' : Object}
    {v : PropValue}, o.property property = some v →
    System.Guarded (step types conv.toVariantApi) (Edits conv property) o calls →
    ((calls.map Call.params).map (attributeOf conv)).Nodup →
    System.run (step types conv.toVariantApi) o calls = some o' →
    ∃ v', Assigned conv (calls.map Call.params) property v v' ∧
      o'.property property = some v' ∧
      o'.objectName = o.objectName ∧
      o'.refresh_semaphore = o.refresh_semaphore + calls.length ∧
      o'.dynamic = if calls = [] then o.dynamic
        else o.dynamic.setProperty property (some v') := by
  intro calls
  induction calls with
  | nil =>
    intro o o' v hv _ _ hrun
    rw [System.run, Option.some.injEq] at hrun
    subst hrun
    exact ⟨v, ⟨rfl, fun _ h => absurd h List.not_mem_nil, fun _ _ => rfl⟩, hv, rfl, rfl, rfl⟩
  | cons c calls ih =>
    intro o o' v hv hguarded hdistinct hrun
    obtain ⟨hedits, hrest⟩ := hguarded
    rw [System.run, Option.bind_eq_some_iff] at hrun
    obtain ⟨o₁, hstep, hrun⟩ := hrun
    cases c with
    | setPropertyAttr junk params =>
      obtain ⟨attr, data, w, hchecked, hw, hsurvives⟩ := hedits
      rw [hv] at hw
      cases hw
      -- the first call
      obtain ⟨ret, hreturned⟩ := step_eq_some_iff.mp hstep
      obtain ⟨w, hw, hname, _, ho₁⟩ := object_of_returned conv types hchecked hreturned
      rw [hv] at hw
      cases hw
      have hsets := (setsOnly_edited_iff conv junk v attr data).mpr hsurvives
      have hv₁ : o₁.property property = some (v.edited conv junk attr data) := by
        rw [ho₁, property_of_ne hname]
        exact Table.property_setProperty_self o.dynamic property _
      -- the rest
      obtain ⟨hfresh, hdistinct⟩ := List.nodup_cons.mp hdistinct
      obtain ⟨v', hassigned, hv', hobjectName, hsemaphore, hdynamic⟩ :=
        ih hv₁ (hrest o₁ hstep) hdistinct hrun
      refine ⟨v', hassigned.cons hchecked hsets hfresh, hv', ?_, ?_, ?_⟩
      · rw [hobjectName, ho₁]
      · rw [hsemaphore, ho₁, List.length_cons]
        show o.refresh_semaphore + 1 + calls.length = o.refresh_semaphore + (calls.length + 1)
        omega
      · rw [if_neg (List.cons_ne_nil _ _), hdynamic, ho₁]
        show (if calls = [] then
            o.dynamic.setProperty property (some (v.edited conv junk attr data))
          else (o.dynamic.setProperty property (some (v.edited conv junk attr data))).setProperty
            property (some v')) = _
        split
        · next hnil =>
          -- the first call is the only one
          subst hnil
          rw [System.run, Option.some.injEq] at hrun
          rw [← hrun, hv₁] at hv'
          rw [Option.some.inj hv']
        · rw [Table.setProperty_setProperty]
    | _ => exact hedits.elim

/-- Every call of the run has passed its checks. -/
theorem checked_of_mem {property : Bytes} : ∀ {calls : List (Call P)} {o o' : Object},
    System.Guarded (step types conv.toVariantApi) (Edits conv property) o calls →
    System.run (step types conv.toVariantApi) o calls = some o' →
    ∀ params ∈ calls.map Call.params, ∃ attr data,
      Checked conv.toVariantApi params property attr data := by
  intro calls
  induction calls with
  | nil => exact fun _ _ params h => absurd h List.not_mem_nil
  | cons c calls ih =>
    intro o o' hguarded hrun params hmem
    rw [System.run, Option.bind_eq_some_iff] at hrun
    obtain ⟨o₁, hstep, hrun⟩ := hrun
    rcases List.mem_cons.mp hmem with rfl | hmem
    · cases c with
      | setPropertyAttr junk params =>
        obtain ⟨attr, data, _, hchecked, _⟩ := hguarded.1
        exact ⟨attr, data, hchecked⟩
      | _ => exact hguarded.1.elim
    · exact ih (hguarded.2 o₁ hstep) hrun params hmem

/-- The value of the property is that of a `QObject` type. -/
theorem exists_object_of_edits {property : Bytes} {o : Object} {c : Call P}
    (h : Edits conv property o c) :
    ∃ v, o.property property = some v ∧ v.metaType.isQObject = true := by
  cases c with
  | setPropertyAttr junk params =>
    obtain ⟨attr, data, v, _, hv, hsurvives⟩ := h
    refine ⟨v, hv, ?_⟩
    cases v with
    | other name =>
      exact absurd hsurvives.1
        (by simp [MetaType.converted, PropValue.metaType, MetaType.declared])
    | _ => rfl
  | _ => exact h.elim

/-- The same requests assign the same attributes, in whatever order. -/
theorem Assigned.unique {requests requests' : List (List (Bytes × P))} {property : Bytes}
    {v v₁ v₂ : PropValue} (hobject : v.metaType.isQObject = true)
    (h₁ : Assigned conv requests property v v₁) (h₂ : Assigned conv requests' property v v₂)
    (hperm : requests.Perm requests')
    (hchecked : ∀ params ∈ requests, ∃ attr data,
      Checked conv.toVariantApi params property attr data) : v₁ = v₂ := by
  refine eq_of_attribute (h₂.metaType_eq ▸ hobject)
    (h₁.metaType_eq.trans h₂.metaType_eq.symm) fun b => ?_
  by_cases hb : ∃ params ∈ requests, attributeOf conv params = some b
  · obtain ⟨params, hmem, hparams⟩ := hb
    obtain ⟨attr, data, h⟩ := hchecked params hmem
    cases hparams.symm.trans h.2.1
    rw [h₁.set params hmem b data h, h₂.set params (hperm.mem_iff.mp hmem) b data h]
  · rw [h₁.kept b fun params hmem h => hb ⟨params, hmem, h⟩,
      h₂.kept b fun params hmem h => hb ⟨params, hperm.mem_iff.mpr hmem, h⟩]

/-- Surviving calls on different attributes commute. -/
theorem run_perm {property : Bytes} {o o₁ o₂ : Object} {calls calls' : List (Call P)}
    (h : System.Guarded (step types conv.toVariantApi) (Edits conv property) o calls)
    (h' : System.Guarded (step types conv.toVariantApi) (Edits conv property) o calls')
    (hperm : (calls.map Call.params).Perm (calls'.map Call.params))
    (hdistinct : ((calls.map Call.params).map (attributeOf conv)).Nodup)
    (hrun : System.run (step types conv.toVariantApi) o calls = some o₁)
    (hrun' : System.run (step types conv.toVariantApi) o calls' = some o₂) : o₁ = o₂ := by
  have hlen : calls.length = calls'.length := by
    have hlen := hperm.length_eq
    rwa [List.length_map, List.length_map] at hlen
  cases hcalls : calls with
  | nil =>
    rw [hcalls] at hlen hrun
    have hnil : calls' = [] := List.eq_nil_of_length_eq_zero hlen.symm
    rw [hnil] at hrun'
    exact Option.some.inj (hrun.symm.trans hrun')
  | cons c rest =>
    have hne : calls ≠ [] := hcalls ▸ List.cons_ne_nil c rest
    have hne' : calls' ≠ [] := fun hnil =>
      hne (List.eq_nil_of_length_eq_zero (by rw [hlen, hnil]; rfl))
    obtain ⟨v, hv, hobject⟩ := exists_object_of_edits (hcalls ▸ h).1
    obtain ⟨v₁, hassigned₁, _, hname₁, hsemaphore₁, hdynamic₁⟩ :=
      assigned_of_run hv h hdistinct hrun
    obtain ⟨v₂, hassigned₂, _, hname₂, hsemaphore₂, hdynamic₂⟩ :=
      assigned_of_run hv h' ((hperm.map _).nodup_iff.mp hdistinct) hrun'
    have hvalue : v₁ = v₂ := hassigned₁.unique hobject hassigned₂ hperm (checked_of_mem h hrun)
    rw [if_neg hne] at hdynamic₁
    rw [if_neg hne'] at hdynamic₂
    obtain ⟨name₁, dynamic₁, semaphore₁⟩ := o₁
    obtain ⟨name₂, dynamic₂, semaphore₂⟩ := o₂
    simp only at hname₁ hsemaphore₁ hdynamic₁ hname₂ hsemaphore₂ hdynamic₂
    rw [hname₁, hname₂, hsemaphore₁, hsemaphore₂, hdynamic₁, hdynamic₂, hlen, hvalue]

/-- **Attributes**: a `setPropertyAttr` that reports success sets its attribute
    and nothing else exactly when the attribute survives the copies, and
    calls for different attributes that survive give the same object in any
    order. -/
theorem setPropertyAttr_setsExactly_iff (types : MetaTypes) (conv : Conversions P) :
    (∀ junk params o o' ret property attr data,
      Checked conv.toVariantApi params property attr data →
      setPropertyAttr types conv.toVariantApi junk params o = .returned o' ret →
      ret.2 = NoError →
        (SetsExactly conv o o' property attr data ↔
          ∃ v, o.property property = some v ∧ v.Survives conv junk attr data)) ∧
    ∀ property o o₁ o₂ calls calls',
      System.Guarded (step types conv.toVariantApi) (Edits conv property) o calls →
      System.Guarded (step types conv.toVariantApi) (Edits conv property) o calls' →
      (calls.map Call.params).Perm (calls'.map Call.params) →
      ((calls.map Call.params).map (attributeOf conv)).Nodup →
      System.run (step types conv.toVariantApi) o calls = some o₁ →
      System.run (step types conv.toVariantApi) o calls' = some o₂ → o₁ = o₂ :=
  ⟨fun _ _ _ _ _ _ _ _ hchecked h _ => setsExactly_iff conv types hchecked h,
    fun _ _ _ _ _ _ h h' hperm hdistinct hrun hrun' => run_perm h h' hperm hdistinct hrun hrun'⟩

/-! ### Fixed calls -/

/-- A request whose values are strings; digits convert to an `int`. -/
def stringConversions : Conversions Bytes where
  toByteArray := id
  toString := id
  asByteArray := some
  asInt s := if Digits s then some (digitsValue s) else none
  asQString := some

/-- An object with one link. -/
def linkObject (url_ text_ : Bytes) (signals : Nat) : Object :=
  ⟨ascii "Root", [(ascii "Link", .hyperLink url_ text_)], signals⟩

/-- A request for an attribute of a property. -/
def attrRequest (property attr data : Bytes) : List (Bytes × Bytes) :=
  [(ascii "property", property), (ascii "attribute", attr), (ascii "data", data)]

/-- The url and the text of a link survive. -/
theorem edits_linkObject {attr : Bytes} (hattr : attr = ascii "url" ∨ attr = ascii "text")
    (url_ text_ : Bytes) (signals : Nat) {data : Bytes} :
    Edits stringConversions (ascii "Link") (linkObject url_ text_ signals)
      (.setPropertyAttr 0 (attrRequest (ascii "Link") attr data)) := by
  refine ⟨attr, data, .hyperLink url_ text_, ⟨rfl, ?_, rfl⟩, rfl, ?_⟩
  · rcases hattr with rfl | rfl <;> rfl
  · refine ⟨?_, ?_, ?_⟩
    · rcases hattr with rfl | rfl <;> rfl
    · intro h
      rcases hattr with rfl | rfl <;> exact absurd h (by decide)
    · rintro _ _ ⟨⟩

/-- A link whose url and text are set, in both orders. -/
theorem setPropertyAttr_setsExactly_link :
    let setUrl : Call Bytes :=
      .setPropertyAttr 0 (attrRequest (ascii "Link") (ascii "url") (ascii "a"))
    let setText : Call Bytes :=
      .setPropertyAttr 0 (attrRequest (ascii "Link") (ascii "text") (ascii "b"))
    SetsExactly stringConversions (linkObject [] [] 0) (linkObject (ascii "a") [] 1)
        (ascii "Link") (ascii "url") (ascii "a") ∧
      ∃ o₁ o₂,
        System.run (step withQString stringConversions.toVariantApi) (linkObject [] [] 0)
          [setUrl, setText] = some o₁ ∧
        System.run (step withQString stringConversions.toVariantApi) (linkObject [] [] 0)
          [setText, setUrl] = some o₂ ∧ o₁ = o₂ := by
  intro setUrl setText
  have hmain := setPropertyAttr_setsExactly_iff withQString stringConversions
  constructor
  · refine (hmain.1 0 (attrRequest (ascii "Link") (ascii "url") (ascii "a")) _ _
      (ascii "Attribute url set to a", NoError) (ascii "Link") (ascii "url") (ascii "a")
      ⟨rfl, rfl, rfl⟩ (by decide) rfl).mpr ?_
    refine ⟨.hyperLink [] [], rfl, rfl, ?_, ?_⟩
    · intro h
      exact absurd h (by decide)
    · rintro _ _ ⟨⟩
  · have hrun : System.run (step withQString stringConversions.toVariantApi) (linkObject [] [] 0)
        [setUrl, setText] = some (linkObject (ascii "a") (ascii "b") 2) := by
      decide
    have hrun' : System.run (step withQString stringConversions.toVariantApi)
        (linkObject [] [] 0) [setText, setUrl] =
          some (linkObject (ascii "a") (ascii "b") 2) := by
      decide
    refine ⟨_, _, hrun, hrun', hmain.2 (ascii "Link") (linkObject [] [] 0) _ _
      [setUrl, setText] [setText, setUrl] ?_ ?_ (List.Perm.swap _ _ _) (by decide) hrun hrun'⟩
    · refine ⟨edits_linkObject (Or.inl rfl) _ _ _, fun o' ho' => ⟨?_, fun _ _ => trivial⟩⟩
      have h : o' = linkObject (ascii "a") [] 1 := Option.some.inj (ho'.symm.trans (by decide))
      rw [h]
      exact edits_linkObject (Or.inr rfl) _ _ _
    · refine ⟨edits_linkObject (Or.inr rfl) _ _ _, fun o' ho' => ⟨?_, fun _ _ => trivial⟩⟩
      have h : o' = linkObject [] (ascii "b") 1 := Option.some.inj (ho'.symm.trans (by decide))
      rw [h]
      exact edits_linkObject (Or.inl rfl) _ _ _

/-- A `Header` whose level is set to 2 in memory that held 0. -/
theorem not_setsExactly_header : ¬ ∀ (o o' : Object) (ret : Ret) (property attr data : Bytes),
    setPropertyAttr withQString stringConversions.toVariantApi 0
        (attrRequest property attr data) o = .returned o' ret →
      Checked stringConversions.toVariantApi (attrRequest property attr data) property attr data →
        ret.2 = NoError → SetsExactly stringConversions o o' property attr data := by
  intro hall
  have hsets := hall ⟨ascii "Root", [(ascii "Title", .header (ascii "Hi") 1)], 0⟩
    ⟨ascii "Root", [(ascii "Title", .header (ascii "Hi") 0)], 1⟩
    (ascii "Attribute level set to 2", NoError) (ascii "Title") (ascii "level") (ascii "2")
    (by decide) ⟨rfl, rfl, rfl⟩ rfl
  obtain ⟨⟨v, v', hv, hv', _, ⟨x, hx, hread⟩, _⟩, _⟩ := hsets
  cases hv
  cases hv'
  rw [attribute_level] at hread
  rw [← Option.some.inj hread] at hx
  exact absurd hx (by decide)

end DatabaseObj
