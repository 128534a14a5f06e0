import JsonRpcServer.Database.Properties
import JsonRpcServer.Framework.CString
import JsonRpcServer.Framework.System
import JsonRpcServer.Rpc.Codes

/-! # The Property Store

  The invokable methods of `DatabaseObj` that work on its properties.

  A call either returns, with a result and an error code, or it does what
  the language gives no meaning to: `setPropertyAttr` copies the value of
  the property with `QMetaType::create` and uses the copy as a `QObject`.
  The copy is null when there is no such property, and it is no `QObject`
  when the property has a type like `QString`.

  * `setPropertyAttr_sound_iff`: a run of calls is free of this exactly when
    every `setPropertyAttr` names a property of a `QObject` type.

  Qt's own part is a parameter: the registered types (`MetaTypes`) and the
  conversions of the values in a request (`VariantApi`).
-/

namespace DatabaseObj

open Bytes CString JsonRPCServer JsonRPCErrorCodes

/-! ### Types and values -/

/-- The types a `QMetaType` can stand for. -/
inductive MetaType where
  | HyperLink
  | Text
  | Header
  /-- Any other registered type. -/
  | other (name : Bytes)
  deriving DecidableEq, Repr

/-- The type is derived from `QObject`. -/
def MetaType.isQObject : MetaType → Bool
  | .HyperLink | .Text | .Header => true
  | .other _ => false

/-- The value of a property. The level of a `Header` is whatever its memory
    held: neither of the constructors sets it. -/
inductive PropValue where
  | hyperLink (url_ text_ : Bytes)
  | text (text_ : Bytes)
  | header (text_ : Bytes) (level_ : Int)
  /-- The default value of another type. -/
  | other (name : Bytes)
  deriving DecidableEq, Repr

def PropValue.metaType : PropValue → MetaType
  | .hyperLink _ _ => .HyperLink
  | .text _ => .Text
  | .header _ _ => .Header
  | .other name => .other name

/-- `QMetaType::name`. -/
def MetaType.typeName : MetaType → Bytes
  | .HyperLink => ascii "UserMetaTypes::HyperLink"
  | .Text => ascii "UserMetaTypes::Text"
  | .Header => ascii "UserMetaTypes::Header"
  | .other name => name

/-- The registered types besides the three of `registerTypes`. -/
structure MetaTypes where
  /-- `QMetaType::fromName` gives a valid type. -/
  known : Bytes → Bool
  /-- `QVariant(type, nullptr)` is valid. -/
  constructs : Bytes → Bool
  /-- What the default value of the type converts to as a `QString`. -/
  toQString : Bytes → Option Bytes

/-- `QMetaType::fromName`; `none` is the invalid type. What `registerTypes`
    registers is a second name beside the one a type has. -/
def MetaTypes.fromName (types : MetaTypes) (name : Bytes) : Option MetaType :=
  if name = ascii "HyperLink" ∨ name = MetaType.HyperLink.typeName then some .HyperLink
  else if name = ascii "Text" ∨ name = MetaType.Text.typeName then some .Text
  else if name = ascii "Header" ∨ name = MetaType.Header.typeName then some .Header
  else if types.known name then some (.other name)
  else none

/-- `QVariant(type, nullptr)`; `junk` is the memory a `Header` is built in. -/
def MetaTypes.defaultValue (types : MetaTypes) (junk : Int) : MetaType → Option PropValue
  | .HyperLink => some (.hyperLink [] [])
  | .Text => some (.text [])
  | .Header => some (.header [] junk)
  | .other name => if types.constructs name then some (.other name) else none

/-- The copy constructors. -/
def PropValue.copied (junk : Int) : PropValue → PropValue
  | .header text_ _ => .header text_ junk
  | v => v

/-- Conversions of the values of a `QVariantMap`. -/
structure VariantApi (P : Type) where
  /-- `QVariant::toByteArray`. -/
  toByteArray : P → Bytes
  /-- `QVariant::toString`, in UTF-8. -/
  toString : P → Bytes
  /-- Conversion to a property of type `QByteArray`, where there is one. -/
  asByteArray : P → Option Bytes
  /-- Conversion to a property of type `int`, where there is one. -/
  asInt : P → Option Int

/-- `setProperty` on a copy of the value. Only the members survive the copies
    made of it later: the object name and dynamic properties do not. -/
def PropValue.setProperty {P : Type} (api : VariantApi P) (v : PropValue) (attr : Bytes)
    (data : P) : PropValue :=
  match v with
  | .hyperLink url_ text_ =>
      if attr = ascii "url" then .hyperLink ((api.asByteArray data).getD url_) text_
      else if attr = ascii "text" then .hyperLink url_ ((api.asByteArray data).getD text_)
      else v
  | .text text_ =>
      if attr = ascii "text" then .text ((api.asByteArray data).getD text_) else v
  | .header text_ level_ =>
      if attr = ascii "text" then .header ((api.asByteArray data).getD text_) level_
      else if attr = ascii "level" then .header text_ ((api.asInt data).getD level_)
      else v
  | .other _ => v

/-! ### Objects -/

/-- A `DatabaseObj`, as far as its property methods use it. -/
structure Object where
  objectName : Bytes
  dynamic : Table PropValue
  refresh_semaphore : Nat
  deriving DecidableEq, Repr

/-- A new object. -/
def fresh (name : Bytes) : Object := ⟨name, [], 0⟩

/-- `this->property(name)`: the declared property first. -/
def Object.property (o : Object) (name : Bytes) : Option PropValue :=
  if name = ascii "objectName" then some (.other (ascii "QString"))
  else o.dynamic.property name

/-- `this->setProperty(name, value)`. A declared property takes what converts
    to its type. -/
def Object.setProperty (types : MetaTypes) (o : Object) (name : Bytes) (value : Option PropValue) :
    Object :=
  if name = ascii "objectName" then
    match value with
    | some (.other type) => { o with objectName := (types.toQString type).getD o.objectName }
    | _ => o
  else { o with dynamic := o.dynamic.setProperty name value }

/-- `notifyRefresh`. -/
def Object.notifyRefresh (o : Object) : Object :=
  { o with refresh_semaphore := o.refresh_semaphore + 1 }

/-! ### The methods -/

/-- `JsonRPCRet_t`. -/
abbrev Ret := Bytes × JsonRPCErrorCodes

/-- How a call ends. -/
inductive Outcome where
  | returned (o : Object) (ret : Ret)
  /-- A null pointer is dereferenced. -/
  | nullDeref
  /-- Memory that holds no `QObject` is used as one. -/
  | badCast
  deriving DecidableEq, Repr

/-- `Ret_t{"", InvalidParams}`, with nothing done. -/
def invalidParams (o : Object) : Outcome := .returned o ([], InvalidParams)

section methods

variable {P : Type} (types : MetaTypes) (api : VariantApi P)

/-- `extractParamStr`: the value is cut at its first NUL after it was found
    to be non-empty. -/
def extractParamStr (params : List (Bytes × P)) (key : Bytes) : Option Bytes :=
  match params.lookup key with
  | none => none
  | some v => if api.toByteArray v = [] then none else some (content (api.toByteArray v))

def addProperty (junk : Int) (params : List (Bytes × P)) (o : Object) : Outcome :=
  match extractParamStr api params (ascii "name") with
  | none => invalidParams o
  | some name =>
      if name ∈ o.dynamic.dynamicPropertyNames then invalidParams o
      else
        match extractParamStr api params (ascii "type") with
        | none => invalidParams o
        | some type_str =>
            match (types.fromName type_str).bind (types.defaultValue junk) with
            | none => invalidParams o
            | some prop_val =>
                .returned (o.setProperty types name (some prop_val)).notifyRefresh
                  (ascii "Property <" ++ name ++ ascii "> type <" ++ type_str ++ ascii "> added",
                    NoError)

def deleteProperty (params : List (Bytes × P)) (o : Object) : Outcome :=
  match extractParamStr api params (ascii "name") with
  | none => invalidParams o
  | some name =>
      if name ∈ o.dynamic.dynamicPropertyNames then
        .returned (o.setProperty types name none).notifyRefresh
          (ascii "Property <" ++ name ++ ascii "> deleted", NoError)
      else invalidParams o

def listProperties (o : Object) : Outcome :=
  .returned o ((o.dynamic.map fun p => ascii "\x7bProperty <" ++ p.1 ++ ascii ">, type: <" ++
    p.2.metaType.typeName ++ ascii ">\x7d ").flatten, NoError)

def setPropertyAttr (junk : Int) (params : List (Bytes × P)) (o : Object) : Outcome :=
  match extractParamStr api params (ascii "property") with
  | none => invalidParams o
  | some property =>
      match extractParamStr api params (ascii "attribute") with
      | none => invalidParams o
      | some attr =>
          match params.lookup (ascii "data") with
          | none => invalidParams o
          | some data =>
              -- `prop_t.create(prop_v.data())`, cast to `QObject *`
              match o.property property with
              | none => .nullDeref
              | some prop_v =>
                  if prop_v.metaType.isQObject then
                    let prop_copy := (prop_v.copied junk).setProperty api attr data
                    .returned (o.setProperty types property (some (prop_copy.copied junk))).notifyRefresh
                      (ascii "Attribute " ++ attr ++ ascii " set to " ++ api.toString data,
                        NoError)
                  else .badCast

/-- A call from a client. -/
inductive Call (P : Type) where
  | addProperty (junk : Int) (params : List (Bytes × P))
  | deleteProperty (params : List (Bytes × P))
  | listProperties
  | setPropertyAttr (junk : Int) (params : List (Bytes × P))

def call (o : Object) : Call P → Outcome
  | .addProperty junk params => addProperty types api junk params o
  | .deleteProperty params => deleteProperty types api params o
  | .listProperties => listProperties o
  | .setPropertyAttr junk params => setPropertyAttr types api junk params o

/-- The object after a call; a run ends where the program has no meaning. -/
def step (o : Object) (c : Call P) : Option Object :=
  match call types api o c with
  | .returned o' _ => some o'
  | _ => none

variable {types api} in
/-- A step is a call that returns. -/
theorem step_eq_some_iff {o o' : Object} {c : Call P} :
    step types api o c = some o' ↔ ∃ ret, call types api o c = .returned o' ret := by
  unfold step
  cases call types api o c with
  | returned o₁ ret => simp
  | nullDeref => simp
  | badCast => simp

/-! ### Sound casts -/

/-- The arguments of a `setPropertyAttr` that passes its checks. -/
def Checked (params : List (Bytes × P)) (property attr : Bytes) (data : P) : Prop :=
  extractParamStr api params (ascii "property") = some property ∧
    extractParamStr api params (ascii "attribute") = some attr ∧
    params.lookup (ascii "data") = some data

/-- A `setPropertyAttr` that passes its checks returns when the property is
    of a `QObject` type, and refuses everything else without effect. -/
def Sound (o : Object) : Call P → Prop
  | .setPropertyAttr junk params => ∀ property attr data,
      Checked api params property attr data →
        if ((o.property property).any fun v => v.metaType.isQObject) then
          ∃ o' ret, setPropertyAttr types api junk params o = .returned o' ret
        else setPropertyAttr types api junk params o = invalidParams o
  | _ => True

/-- A `setPropertyAttr` that passes its checks names a property of a
    `QObject` type. -/
def NamesObject (o : Object) : Call P → Prop
  | .setPropertyAttr _ params => ∀ property attr data,
      Checked api params property attr data →
        (o.property property).any fun v => v.metaType.isQObject
  | _ => True

/-- What `setPropertyAttr` does once its checks have passed. -/
theorem setPropertyAttr_checked {junk : Int} {params : List (Bytes × P)} {o : Object}
    {property attr : Bytes} {data : P} (h : Checked api params property attr data) :
    setPropertyAttr types api junk params o =
      match o.property property with
      | none => .nullDeref
      | some prop_v =>
          if prop_v.metaType.isQObject then
            .returned (o.setProperty types property
                (some (((prop_v.copied junk).setProperty api attr data).copied junk))).notifyRefresh
              (ascii "Attribute " ++ attr ++ ascii " set to " ++ api.toString data, NoError)
          else .badCast := by
  obtain ⟨hproperty, hattribute, hdata⟩ := h
  rw [setPropertyAttr, hproperty]
  dsimp only
  rw [hattribute]
  dsimp only
  rw [hdata]

theorem sound_iff_namesObject (o : Object) (c : Call P) :
    Sound types api o c ↔ NamesObject api o c := by
  cases c with
  | setPropertyAttr junk params =>
    refine forall_congr' fun property => forall_congr' fun attr => forall_congr' fun data =>
      forall_congr' fun hchecked => ?_
    rw [setPropertyAttr_checked types api hchecked]
    cases o.property property with
    | none => simp [invalidParams]
    | some v =>
      by_cases hv : v.metaType.isQObject
      · simp [hv]
      · simp [hv, invalidParams]
  | _ => exact Iff.rfl

/-- **Sound casts**: in a run of calls on a new object every cast is sound
    exactly when every `setPropertyAttr` that passes its checks names a
    property of a `QObject` type. -/
theorem setPropertyAttr_sound_iff (name : Bytes) (calls : List (Call P)) :
    System.Guarded (step types api) (Sound types api) (fresh name) calls ↔
      System.Guarded (step types api) (NamesObject api) (fresh name) calls :=
  System.guarded_congr (fun _ => True) (fun _ _ _ _ _ => trivial)
    (fun o c _ => sound_iff_namesObject types api o c) trivial calls

end methods

/-! ### A cast that is not sound -/

/-- A request whose values are strings. -/
def stringApi : VariantApi Bytes := ⟨id, id, some, fun _ => none⟩

/-- `QString` is the only other type. -/
def withQString : MetaTypes :=
  ⟨fun name => name = ascii "QString", fun name => name = ascii "QString", fun _ => some []⟩

/-- Add a property of type `QString`, then set one of its attributes. -/
def stringProperty : List (Call Bytes) :=
  [.addProperty 0 [(ascii "type", ascii "QString"), (ascii "name", ascii "Title")],
    .setPropertyAttr 0 [(ascii "property", ascii "Title"), (ascii "attribute", ascii "text"),
      (ascii "data", ascii "Hello")]]

theorem setPropertyAttr_unsound : ¬ ∀ (name : Bytes) (calls : List (Call Bytes)),
    System.Guarded (step withQString stringApi) (Sound withQString stringApi) (fresh name) calls := by
  intro hall
  have hset := ((hall (ascii "Root") stringProperty).2 _ rfl).1
  have hrefused := hset (ascii "Title") (ascii "text") (ascii "Hello")
    ⟨by decide, by decide, by decide⟩
  rw [if_neg (by decide)] at hrefused
  exact absurd hrefused (by decide)

end DatabaseObj
