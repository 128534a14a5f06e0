import JsonRpcServer.Database.PropertyMap
import JsonRpcServer.Database.Signals
import JsonRpcServer.Framework.Delimiter
import JsonRpcServer.Rpc.Reading

/-! # What a Listing Tells

  `listProperties` writes the name and the type of each property into one
  text, and `sendJsonResponseValid` writes that text and the id into a
  response. Names are chosen by clients and are not escaped.

  A name that contains the text between a name and a type can make one
  property look like two. Without such names a client that receives the
  response can tell which properties there are, of which types and in which
  order.

  * `listing_told`: for any two objects that calls lead to, equal responses
    to `listProperties` mean equal properties and equal ids.
  * `listing_ambiguous`: this fails for a name that looks like an entry.
-/

namespace DatabaseObj

open Bytes CString Delimiter JsonRPCServer JsonRPCErrorCodes

/-! ### Entries -/

/-- The text between a name and its type. -/
def typeSeparator : Bytes := ascii ">, type: <"

/-- The text behind a type. -/
def entryEnd : Bytes := ascii ">\x7d "

/-- An entry of a listing. -/
def entry (p : Bytes × MetaType) : Bytes :=
  ascii "\x7bProperty <" ++ (p.1 ++ (typeSeparator ++ (p.2.typeName ++ (entryEnd ++ []))))

/-- The types that `registerTypes` names are not among the other ones. -/
def MetaType.Proper (types : MetaTypes) : MetaType → Prop
  | .HyperLink | .Text | .Header => True
  | .other name => types.known name ∧ name ∉ [MetaType.HyperLink.typeName, MetaType.Text.typeName,
      MetaType.Header.typeName]

/-- The entry can be read. -/
structure Readable (types : MetaTypes) (p : Bytes × MetaType) : Prop where
  separator : ¬ typeSeparator <:+: p.1
  zero : 0 ∉ p.1
  proper : p.2.Proper types

/-- Names of registered types are C++ names: nothing in them looks like the
    end of an entry. -/
def TypesPlain (types : MetaTypes) : Prop :=
  ∀ name, types.known name → ¬ entryEnd <:+: name ∧ 0 ∉ name

section entries

variable {types : MetaTypes}

theorem typeName_plain (htypes : TypesPlain types) {t : MetaType} (ht : t.Proper types) :
    ¬ entryEnd <:+: t.typeName ∧ 0 ∉ t.typeName := by
  cases t with
  | other name => exact htypes name ht.1
  | HyperLink => decide +kernel
  | Text => decide +kernel
  | Header => decide +kernel

theorem typeName_inj {t t' : MetaType} (ht : t.Proper types) (ht' : t'.Proper types)
    (h : t.typeName = t'.typeName) : t = t' := by
  cases t with
  | other name =>
    cases t' with
    | other name' => exact congrArg MetaType.other h
    | HyperLink => exact absurd (by simp [show name = _ from h]) ht.2
    | Text => exact absurd (by simp [show name = _ from h]) ht.2
    | Header => exact absurd (by simp [show name = _ from h]) ht.2
  | HyperLink =>
    cases t' with
    | other name' => exact absurd (by simp [show _ = name' from h]) ht'.2
    | HyperLink => rfl
    | Text => exact absurd h (by decide)
    | Header => exact absurd h (by decide)
  | Text =>
    cases t' with
    | other name' => exact absurd (by simp [show _ = name' from h]) ht'.2
    | HyperLink => exact absurd h (by decide)
    | Text => rfl
    | Header => exact absurd h (by decide)
  | Header =>
    cases t' with
    | other name' => exact absurd (by simp [show _ = name' from h]) ht'.2
    | HyperLink => exact absurd h (by decide)
    | Text => exact absurd h (by decide)
    | Header => rfl

/-- An entry shows where it ends. -/
theorem entry_cancel (htypes : TypesPlain types) {p q : Bytes × MetaType} {x y : Bytes}
    (hp : Readable types p) (hq : Readable types q) (h : entry p ++ x = entry q ++ y) :
    p = q ∧ x = y := by
  have hsep : Delimits typeSeparator := by decide
  have hend : Delimits entryEnd := by decide
  simp only [entry, List.append_assoc, List.nil_append] at h
  obtain ⟨hname, h⟩ := hsep.append_inj hp.separator hq.separator (List.append_cancel_left h)
  obtain ⟨htype, h⟩ := hend.append_inj (typeName_plain htypes hp.proper).1
    (typeName_plain htypes hq.proper).1 h
  exact ⟨Prod.ext hname (typeName_inj hp.proper hq.proper htype), h⟩

theorem listing_eq (m : Table MetaType) : listing m = (m.map entry).flatten := by
  unfold listing
  congr 1
  apply List.map_congr_left
  intro p _
  simp [entry, typeSeparator, entryEnd]

/-- Readable maps are told apart by their listings. -/
theorem listing_inj (htypes : TypesPlain types) {m m' : Table MetaType}
    (hm : ∀ p ∈ m, Readable types p) (hm' : ∀ p ∈ m', Readable types p)
    (h : listing m = listing m') : m = m' := by
  rw [listing_eq, listing_eq] at h
  refine flatten_map_inj (P := Readable types) (t := [])
    (fun p q x y hp hq heq => entry_cancel htypes hp hq heq) ?_ hm hm' ?_
  · intro p x _ hnil
    simp [entry, ascii] at hnil
  · rw [h]

theorem zero_not_mem_listing (htypes : TypesPlain types) {m : Table MetaType}
    (hm : ∀ p ∈ m, Readable types p) : 0 ∉ listing m := by
  have hfixed : (0 : UInt8) ∉ ascii "\x7bProperty <" ∧ (0 : UInt8) ∉ typeSeparator ∧
      (0 : UInt8) ∉ entryEnd := by decide
  rw [listing_eq, List.mem_flatten]
  intro h
  obtain ⟨_, hentry, hzero⟩ := h
  obtain ⟨p, hp, rfl⟩ := List.mem_map.mp hentry
  have hread := hm p hp
  have htype := (typeName_plain htypes hread.proper).2
  simp [entry, hfixed, hread.zero, htype] at hzero

end entries

/-! ### Rows -/

section rows

variable {types : MetaTypes} {o : Object}

theorem mem_setProperty_some {V : Type} {t : Table V} {name : Bytes} {v : V} {p : Bytes × V}
    (h : p ∈ t.setProperty name (some v)) : p ∈ t ∨ p = (name, v) := by
  by_cases hmem : name ∈ t.dynamicPropertyNames
  · rw [Table.setProperty_of_mem hmem] at h
    obtain ⟨q, hq, rfl⟩ := List.mem_map.mp h
    by_cases hname : q.1 = name
    · rw [if_pos hname]
      exact Or.inr rfl
    · rw [if_neg hname]
      exact Or.inl hq
  · rw [Table.setProperty_of_not_mem hmem, List.mem_append, List.mem_singleton] at h
    exact h

/-- A row of the map is an old one, or the one that was written. -/
theorem mem_typeMap_setProperty {name : Bytes} {value : Option PropValue} {p : Bytes × MetaType}
    (h : p ∈ (o.setProperty types name value).notifyRefresh.typeMap) :
    p ∈ o.typeMap ∨ ∃ v, value = some v ∧ p = (name, v.metaType) := by
  obtain ⟨q, hq, rfl⟩ := List.mem_map.mp h
  have hold : q ∈ o.dynamic → (q.1, q.2.metaType) ∈ o.typeMap := fun hmem =>
    List.mem_map_of_mem (f := fun p : Bytes × PropValue => (p.1, p.2.metaType)) hmem
  unfold Object.setProperty Object.notifyRefresh at hq
  by_cases hobject : name = ascii "objectName"
  · rw [if_pos hobject] at hq
    split at hq
    · exact Or.inl (hold hq)
    · exact Or.inl (hold hq)
  · rw [if_neg hobject] at hq
    cases value with
    | none => exact Or.inl (hold (List.mem_filter.mp hq).1)
    | some v =>
      rcases mem_setProperty_some hq with hq | rfl
      · exact Or.inl (hold hq)
      · exact Or.inr ⟨v, rfl, rfl⟩

theorem mem_of_property {t : Table PropValue} {name : Bytes} {v : PropValue}
    (h : t.property name = some v) : (name, v) ∈ t := by
  induction t with
  | nil => exact absurd h (by simp)
  | cons p t ih =>
    rw [Table.property_cons] at h
    split at h
    · next hname =>
      rw [hname, ← Option.some.inj h]
      exact List.mem_cons_self
    · exact List.mem_cons_of_mem p (ih h)

/-- `fromName` gives the proper type of a name. -/
theorem proper_of_fromName {name : Bytes} {t : MetaType} (h : types.fromName name = some t) :
    t.Proper types := by
  unfold MetaTypes.fromName at h
  split_ifs at h with h₁ h₂ h₃ h₄
  · rw [← Option.some.inj h]
    trivial
  · rw [← Option.some.inj h]
    trivial
  · rw [← Option.some.inj h]
    trivial
  · rw [← Option.some.inj h]
    refine ⟨h₄, ?_⟩
    simp only [List.mem_cons, List.not_mem_nil, or_false, not_or]
    exact ⟨fun heq => h₁ (Or.inr heq), fun heq => h₂ (Or.inr heq), fun heq => h₃ (Or.inr heq)⟩

end rows

/-! ### Runs -/

section runs

variable {P : Type} {types : MetaTypes} {api : VariantApi P} {o o' : Object}

/-- The call adds no name that contains the text between a name and a
    type. -/
def NamesPlain (api : VariantApi P) : Call P → Prop
  | .addProperty _ params => ∀ name, extractParamStr api params (ascii "name") = some name →
      ¬ typeSeparator <:+: name
  | _ => True

/-- Every property has a name and a type that can be read. -/
def Listed (types : MetaTypes) (o : Object) : Prop := ∀ p ∈ o.typeMap, Readable types p

theorem zero_not_mem_extractParamStr {params : List (Bytes × P)} {key name : Bytes}
    (h : extractParamStr api params key = some name) : 0 ∉ name := by
  unfold extractParamStr at h
  split at h
  · cases h
  · rw [Option.ite_none_left_eq_some] at h
    rw [← Option.some.inj h.2]
    exact zero_not_mem_content _

/-- An object behind an update is as readable as what was written. -/
theorem Listed.update (ho : Listed types o) {name : Bytes} {value : Option PropValue}
    (hvalue : ∀ v, value = some v → Readable types (name, v.metaType)) :
    Listed types (o.setProperty types name value).notifyRefresh := by
  intro p hp
  rcases mem_typeMap_setProperty hp with hp | ⟨v, hv, rfl⟩
  · exact ho p hp
  · exact hvalue v hv

theorem metaType_copied_setProperty (junk : Int) (v : PropValue) (attr : Bytes) (data : P) :
    (((v.copied junk).setProperty api attr data).copied junk).metaType = v.metaType := by
  cases v <;> simp only [PropValue.copied, PropValue.setProperty] <;> split_ifs <;> rfl

/-- Setting an attribute changes neither a name nor a type. -/
theorem listed_setPropertyAttr (ho : Listed types o) (junk : Int) (params : List (Bytes × P))
    {ret : Ret} (h : setPropertyAttr types api junk params o = .returned o' ret) :
    Listed types o' := by
  unfold setPropertyAttr at h
  split at h
  · cases h
    exact ho
  · next property _ =>
    split at h
    · cases h
      exact ho
    · next attr _ =>
      split at h
      · cases h
        exact ho
      · next data _ =>
        split at h
        · cases h
        · next prop_v hprop =>
          rw [ite_eq_iff] at h
          rcases h with ⟨hobject, h⟩ | ⟨_, h⟩
          · cases h
            apply ho.update
            intro v hv
            rw [← Option.some.inj hv, metaType_copied_setProperty]
            -- the property is a row of the table
            unfold Object.property at hprop
            split at hprop
            · rw [← Option.some.inj hprop] at hobject
              exact Bool.noConfusion hobject
            · exact ho _ (List.mem_map_of_mem
                (f := fun p : Bytes × PropValue => (p.1, p.2.metaType)) (mem_of_property hprop))
          · cases h

theorem listed_step (ho : Listed types o) {c : Call P} (hc : NamesPlain api c)
    (h : step types api o c = some o') : Listed types o' := by
  obtain ⟨ret, hcall⟩ := step_eq_some_iff.mp h
  cases c with
  | listProperties =>
    cases hcall
    exact ho
  | setPropertyAttr junk params => exact listed_setPropertyAttr ho junk params hcall
  | deleteProperty params =>
    rw [← run_body] at hcall
    rcases deletePropertyBody_cases api o params with hbody | ⟨name, text, _, _, hbody⟩
    · rw [body, hbody] at hcall
      cases hcall
      exact ho
    · rw [body, hbody] at hcall
      cases hcall
      exact ho.update fun v hv => by cases hv
  | addProperty junk params =>
    rw [← run_body] at hcall
    rcases addPropertyBody_cases types api o junk params with
      hbody | ⟨name, type_str, v, text, hname, _, hv, hbody⟩
    · rw [body, hbody] at hcall
      cases hcall
      exact ho
    · rw [body, hbody] at hcall
      cases hcall
      apply ho.update
      intro v' hv'
      obtain ⟨t, ht, hdefault⟩ := Option.bind_eq_some_iff.mp hv
      rw [← Option.some.inj hv', metaType_of_defaultValue hdefault]
      exact ⟨hc name hname, zero_not_mem_extractParamStr hname, proper_of_fromName ht⟩

/-- Without names that look like an entry every listing can be read. -/
theorem listed_run {name : Bytes} {calls : List (Call P)} (hcalls : ∀ c ∈ calls, NamesPlain api c)
    (hrun : System.run (step types api) (fresh name) calls = some o) : Listed types o := by
  have hfresh : Listed types (fresh name) := fun p hp => absurd hp List.not_mem_nil
  exact System.run_invariant (fun _ _ _ ho hc h => listed_step ho hc h) calls _ _ hfresh
    (System.guarded_of_forall hcalls _) hrun

end runs

/-! ### On the wire -/

/-- The response to `listProperties`. -/
def listingResponse (id : Int32) (o : Object) : Sending :=
  sendJsonResponseValid id (listing o.typeMap)

/-- The listing and the id are read back from the body of a response. -/
theorem validBody_inj {id id' : Int32} {r r' : Bytes} (hr : 0 ∉ r) (hr' : 0 ∉ r')
    (h : validBody id r = validBody id' r') : id = id' ∧ r = r' := by
  rw [validBody_eq, validBody_eq, content_of_zero_not_mem hr, content_of_zero_not_mem hr'] at h
  have hquote : ∀ id : Int32, (34 : UInt8) ∉ decimalInt id.toInt :=
    fun id => not_mem_decimalInt (by decide) _
  -- the id is what stands behind the last quote but one
  have hcut : (r ++ ascii "\", \"id\": ") ++ 34 :: decimalInt id.toInt =
      (r' ++ ascii "\", \"id\": ") ++ 34 :: decimalInt id'.toInt := by
    have htail := List.append_cancel_left h
    refine (List.append_left_inj (ascii "\"\x7d")).mp ?_
    simpa [ascii] using htail
  obtain ⟨htext, hid⟩ := append_cons_inj (hquote id) (hquote id') hcut
  exact ⟨Int32.toInt_inj.mp (decimalInt_injective hid), List.append_cancel_right htext⟩

/-- A message has one body. -/
theorem validBody_of_message {id id' : Int32} {r r' m : Bytes}
    (h : sendJsonResponseValid id r = .message m) (h' : sendJsonResponseValid id' r' = .message m) :
    validBody id r = validBody id' r' := by
  have hm := ((sendJsonResponseValid_message_iff (ne_zero_of_message h) r m).mp h).2
  have hm' := ((sendJsonResponseValid_message_iff (ne_zero_of_message h') r' m).mp h').2
  -- the client takes one message off the connection
  have hread := readSoFar_rpcMessage NoError (validBody id r)
  rw [← hm, hm', readSoFar_rpcMessage] at hread
  have hmessage := (List.cons.inj (Prod.mk.inj hread).1).1
  exact (congrArg HttpMessage.Message.body hmessage).symm

section told

variable {P P' : Type} {types : MetaTypes} {api : VariantApi P} {api' : VariantApi P'}

/-- **Listing**: when no name contains the text between a name and a type,
    objects with the same response have the same properties. -/
theorem listing_told (htypes : TypesPlain types) {name name' : Bytes} {calls : List (Call P)}
    {calls' : List (Call P')} {o o' : Object} {id id' : Int32} {m : Bytes}
    (hcalls : ∀ c ∈ calls, NamesPlain api c) (hcalls' : ∀ c ∈ calls', NamesPlain api' c)
    (hrun : System.run (step types api) (fresh name) calls = some o)
    (hrun' : System.run (step types api') (fresh name') calls' = some o')
    (hresponse : listingResponse id o = .message m)
    (hresponse' : listingResponse id' o' = .message m) :
    id = id' ∧ o.typeMap = o'.typeMap := by
  have hlisted := listed_run hcalls hrun
  have hlisted' := listed_run hcalls' hrun'
  obtain ⟨hid, hlisting⟩ := validBody_inj (zero_not_mem_listing htypes hlisted)
    (zero_not_mem_listing htypes hlisted') (validBody_of_message hresponse hresponse')
  exact ⟨hid, listing_inj htypes hlisted hlisted' hlisting⟩

end told

/-! ### Fixed names -/

theorem typesPlain_withQString : TypesPlain withQString := by
  intro name h
  have hname : name = ascii "QString" := by simpa [withQString] using h
  rw [hname]
  decide +kernel

/-- The same link in two objects, with other attributes. -/
theorem listing_told_link :
    ∃ m, listingResponse 7 ⟨ascii "Root", [(ascii "Link", .hyperLink [] [])], 1⟩ = .message m ∧
      (7 : Int32) = 7 ∧
      Object.typeMap ⟨ascii "Root", [(ascii "Link", .hyperLink [] [])], 1⟩ =
        Object.typeMap ⟨ascii "Page", [(ascii "Link", .hyperLink (ascii "/a") [])], 2⟩ := by
  have hadd : NamesPlain stringApi
      (.addProperty 0 (addRequest (ascii "Link") (ascii "HyperLink"))) := by
    intro name hname
    have hlink : extractParamStr stringApi (addRequest (ascii "Link") (ascii "HyperLink"))
        (ascii "name") = some (ascii "Link") := by decide
    rw [hlink] at hname
    rw [← Option.some.inj hname]
    decide
  have hset : NamesPlain stringApi (.setPropertyAttr 0 [(ascii "property", ascii "Link"),
      (ascii "attribute", ascii "url"), (ascii "data", ascii "/a")]) := trivial
  have hrun : System.run (step withQString stringApi) (fresh (ascii "Root"))
      [.addProperty 0 (addRequest (ascii "Link") (ascii "HyperLink"))] =
        some ⟨ascii "Root", [(ascii "Link", .hyperLink [] [])], 1⟩ := by decide
  have hrun' : System.run (step withQString stringApi) (fresh (ascii "Page"))
      [.addProperty 0 (addRequest (ascii "Link") (ascii "HyperLink")),
        .setPropertyAttr 0 [(ascii "property", ascii "Link"), (ascii "attribute", ascii "url"),
          (ascii "data", ascii "/a")]] =
        some ⟨ascii "Page", [(ascii "Link", .hyperLink (ascii "/a") [])], 2⟩ := by decide
  have hsent : ∃ m, listingResponse 7 ⟨ascii "Root", [(ascii "Link", .hyperLink [] [])], 1⟩ =
      .message m := ⟨_, (sendJsonResponseValid_message_iff (by decide) _ _).mpr ⟨by decide, rfl⟩⟩
  obtain ⟨m, hm⟩ := hsent
  have hm' : listingResponse 7 ⟨ascii "Page", [(ascii "Link", .hyperLink (ascii "/a") [])], 2⟩ =
      .message m := hm
  refine ⟨m, hm, listing_told typesPlain_withQString ?_ ?_ hrun hrun' hm hm'⟩
  · simp [hadd]
  · simp [hadd, hset]

/-- A name with the texts around a type in it stands for two properties. -/
theorem listing_ambiguous : ∃ (calls calls' : List (Call Bytes)) (o o' : Object),
    System.run (step withQString stringApi) (fresh (ascii "Root")) calls = some o ∧
      System.run (step withQString stringApi) (fresh (ascii "Root")) calls' = some o' ∧
      listing o.typeMap = listing o'.typeMap ∧ o.typeMap ≠ o'.typeMap := by
  refine ⟨[.addProperty 0 (addRequest (ascii "a") (ascii "Text")),
      .addProperty 0 (addRequest (ascii "b") (ascii "Text"))],
    [.addProperty 0 (addRequest
      (ascii "a>, type: <UserMetaTypes::Text>\x7d \x7bProperty <b") (ascii "Text"))],
    ⟨ascii "Root", [(ascii "a", .text []), (ascii "b", .text [])], 2⟩,
    ⟨ascii "Root", [(ascii "a>, type: <UserMetaTypes::Text>\x7d \x7bProperty <b", .text [])], 1⟩,
    ?_, ?_, ?_, ?_⟩
  · decide
  · decide
  · decide
  · decide

end DatabaseObj
