import NocoMiddleware.Store.SchemaInitialization

/-!
# What the startup does to tables and fields

Where no request fails, the startup only adds to a base: tables without rows, and fields
that are no links.  `SchemaGrows` is the relation of such bases; a table that a name resolves to
stays the one, so what has been ensured of it is not lost to later additions.
-/

namespace NocoMiddleware
namespace Store

open NocoMiddleware.Js NocoMiddleware.Filter NocoMiddleware.Tables NocoMiddleware.Permissions
open NocoMiddleware.Foundation

/-- Nothing has happened to the base but the passage of time. -/
structure Base.Unchanged (base base' : Base) : Prop where
  world : Store.Unchanged base.world base'.world
  fields : base'.fields = base.fields

theorem Base.Unchanged.refl (base : Base) : base.Unchanged base :=
  ⟨Store.Unchanged.refl _, rfl⟩

theorem Base.Unchanged.trans {first second third : Base} (h : first.Unchanged second)
    (h' : second.Unchanged third) : first.Unchanged third :=
  ⟨h.world.trans h'.world, h'.fields.trans h.fields⟩

theorem Base.Unchanged.hasTable {base base' : Base} (h : base.Unchanged base')
    {tableId : JsString} : base'.HasTable tableId ↔ base.HasTable tableId := by
  rw [Base.HasTable, Base.HasTable, h.world.tables]

/-- Tables without rows and fields that are no links were added to a base. -/
structure SchemaGrows (tablePrefix : JsString) (base base' : Base) : Prop where
  tables : base.world.tables <+: base'.world.tables
  fresh : ∀ table ∈ base'.world.tables, table ∈ base.world.tables ∨ ¬ base.HasTable table.id
  ids : ∀ table ∈ base'.world.tables, table ∈ base.world.tables ∨ table.id ≠ []
  resolves : ∀ tableName table, resolve tablePrefix base.world.tables tableName = some table →
    resolve tablePrefix base'.world.tables tableName = some table
  rows : ∀ tableId, base.HasTable tableId →
    base'.world.rows tableId = base.world.rows tableId
  noRows : ∀ tableId, base'.HasTable tableId → ¬ base.HasTable tableId →
    base'.world.rows tableId = Table.empty
  fields : ∀ tableId, base.HasTable tableId → base.fields tableId <+: base'.fields tableId
  noLinks : ∀ tableId, base'.HasTable tableId → ∀ field ∈ base'.fields tableId,
    field.type ∈ linkFieldTypes → base.HasTable tableId ∧ field ∈ base.fields tableId

/-- The name resolves, to a table with all fields of the definition. -/
def HasFields (tablePrefix : JsString) (base : Base) (tableDef : TableDefinition) : Prop :=
  ∃ table, resolve tablePrefix base.world.tables tableDef.tableName = some table ∧
    ∀ field ∈ tableDef.fields, field.title ∈ (base.fields table.id).map NocoField.title

/-- The error of `assertNoLegacyLinkFields`. -/
def legacySchemaError (fullTableName : JsString) : Exception :=
  .intrinsic (js "Table " ++ fullTableName ++
    js " uses the legacy schema of versions up to 0.7.x, which is not supported. " ++
    js "Delete or rename the old system tables in NocoDB and restart; " ++
    js "they are recreated empty.")

/-- The name resolves, to a table with a legacy field. -/
def HasLegacyField (tablePrefix : JsString) (base : Base) (tableName : JsString) : Prop :=
  ∃ table legacyFields, resolve tablePrefix base.world.tables tableName = some table ∧
    legacyLinkFields tableName = some legacyFields ∧
    ∃ field ∈ base.fields table.id, isLegacyField legacyFields field = true

/-- The base has table ids that are not empty, and no legacy link fields. -/
structure Startable (tablePrefix : JsString) (base : Base) : Prop where
  ids : ∀ table ∈ base.world.tables, table.id ≠ []
  legacy : ∀ tableName table legacyFields,
    resolve tablePrefix base.world.tables tableName = some table →
    legacyLinkFields tableName = some legacyFields →
    ∀ field ∈ base.fields table.id, isLegacyField legacyFields field = false

section

variable {tablePrefix : JsString} {base base' : Base}

/-! ## Growing bases -/

theorem SchemaGrows.hasTable (h : SchemaGrows tablePrefix base base') {tableId : JsString}
    (hhas : base.HasTable tableId) : base'.HasTable tableId := by
  obtain ⟨table, htable, hid⟩ := List.mem_map.mp hhas
  exact List.mem_map.mpr ⟨table, h.tables.subset htable, hid⟩

theorem hasTable_of_resolve {tableName : JsString} {table : TableMeta}
    (h : resolve tablePrefix base.world.tables tableName = some table) :
    base.HasTable table.id :=
  List.mem_map_of_mem (resolve_eq_some h).1

theorem SchemaGrows.of_unchanged (h : base.Unchanged base') :
    SchemaGrows tablePrefix base base' := by
  obtain ⟨hworld, hfields⟩ := h
  constructor
  · rw [hworld.tables]
  · intro table htable
    rw [hworld.tables] at htable
    exact Or.inl htable
  · intro table htable
    rw [hworld.tables] at htable
    exact Or.inl htable
  · intro tableName table hresolve
    rwa [hworld.tables]
  · intro tableId _
    rw [hworld.rows]
  · intro tableId hhas hnot
    rw [Base.HasTable, hworld.tables] at hhas
    contradiction
  · intro tableId _
    rw [hfields]
  · intro tableId hhas field hfield _
    rw [Base.HasTable, hworld.tables] at hhas
    rw [hfields] at hfield
    exact ⟨hhas, hfield⟩

theorem SchemaGrows.trans {middle : Base} (h : SchemaGrows tablePrefix base middle)
    (h' : SchemaGrows tablePrefix middle base') : SchemaGrows tablePrefix base base' := by
  constructor
  · exact h.tables.trans h'.tables
  · intro table htable
    rcases h'.fresh table htable with hmiddle | hnot
    · exact h.fresh table hmiddle
    · exact Or.inr fun hhas => hnot (h.hasTable hhas)
  · intro table htable
    rcases h'.ids table htable with hmiddle | hid
    · exact h.ids table hmiddle
    · exact Or.inr hid
  · intro tableName table hresolve
    exact h'.resolves tableName table (h.resolves tableName table hresolve)
  · intro tableId hhas
    rw [h'.rows tableId (h.hasTable hhas), h.rows tableId hhas]
  · intro tableId hhas hnot
    by_cases hmiddle : middle.HasTable tableId
    · rw [h'.rows tableId hmiddle]
      exact h.noRows tableId hmiddle hnot
    · exact h'.noRows tableId hhas hmiddle
  · intro tableId hhas
    exact (h.fields tableId hhas).trans (h'.fields tableId (h.hasTable hhas))
  · intro tableId hhas field hfield hlink
    obtain ⟨hmiddle, hfield'⟩ := h'.noLinks tableId hhas field hfield hlink
    exact h.noLinks tableId hmiddle field hfield' hlink

theorem HasFields.grows {tableDef : TableDefinition} (hhas : HasFields tablePrefix base tableDef)
    (h : SchemaGrows tablePrefix base base') : HasFields tablePrefix base' tableDef := by
  obtain ⟨table, hresolve, htitles⟩ := hhas
  refine ⟨table, h.resolves _ _ hresolve, fun field hfield => ?_⟩
  have hfields := h.fields table.id (hasTable_of_resolve hresolve)
  exact (hfields.map NocoField.title).subset (htitles field hfield)

theorem isLegacyField_of_noLink {legacyFields : List JsString} {field : NocoField}
    (h : field.type ∉ linkFieldTypes) : isLegacyField legacyFields field = false := by
  rw [isLegacyField, List.contains_eq_mem, decide_eq_false h, Bool.false_and]

/-- A name that resolves to an old table resolved to it before. -/
theorem SchemaGrows.resolve_of_hasTable (h : SchemaGrows tablePrefix base base')
    {tableName : JsString} {table : TableMeta}
    (hresolve : resolve tablePrefix base'.world.tables tableName = some table)
    (hbase : base.HasTable table.id) :
    resolve tablePrefix base.world.tables tableName = some table := by
  have hold : table ∈ base.world.tables :=
    (h.fresh table (resolve_eq_some hresolve).1).resolve_right fun hnot => hnot hbase
  cases hbefore : resolve tablePrefix base.world.tables tableName with
  | some other =>
      rw [← hresolve]
      exact (h.resolves _ _ hbefore).symm
  | none =>
      obtain ⟨htitle, hname⟩ := Option.or_eq_none_iff.mp hbefore
      have hnoTitle := find_eq_none.mp htitle table hold
      have hnoName := find_eq_none.mp hname table hold
      rcases (resolve_eq_some hresolve).2 with heq | ⟨-, hfind⟩
      · contradiction
      · have heq := (of_find hfind).2
        contradiction

/-- The legacy tables are the ones of before. -/
theorem SchemaGrows.hasLegacyField_iff (h : SchemaGrows tablePrefix base base')
    {tableName : JsString} :
    HasLegacyField tablePrefix base' tableName ↔ HasLegacyField tablePrefix base tableName := by
  constructor
  · rintro ⟨table, legacyFields, hresolve, hlegacy, field, hfield, hlegacyField⟩
    have hlink : field.type ∈ linkFieldTypes := by
      by_contra hnot
      rw [isLegacyField_of_noLink hnot] at hlegacyField
      contradiction
    obtain ⟨hbase, hfield'⟩ :=
      h.noLinks table.id (hasTable_of_resolve hresolve) field hfield hlink
    have hbefore := h.resolve_of_hasTable hresolve hbase
    exact ⟨table, legacyFields, hbefore, hlegacy, field, hfield', hlegacyField⟩
  · rintro ⟨table, legacyFields, hresolve, hlegacy, field, hfield, hlegacyField⟩
    have hfields := h.fields table.id (hasTable_of_resolve hresolve)
    exact ⟨table, legacyFields, h.resolves _ _ hresolve, hlegacy, field, hfields.subset hfield,
      hlegacyField⟩

theorem HasLegacyField.exists_resolve {tableName : JsString}
    (h : HasLegacyField tablePrefix base tableName) :
    ∃ table, resolve tablePrefix base.world.tables tableName = some table := by
  obtain ⟨table, _, hresolve, -⟩ := h
  exact ⟨table, hresolve⟩

/-- The name is one of the system tables. -/
theorem HasLegacyField.exists_name {tableName : JsString}
    (h : HasLegacyField tablePrefix base tableName) :
    ∃ table : SystemTable, table.name = tableName := by
  obtain ⟨_, _, -, hfields, -⟩ := h
  unfold legacyLinkFields at hfields
  split at hfields
  · next heq => exact ⟨.userRoles, heq.symm⟩
  · split at hfields
    · next heq => exact ⟨.tablePermissions, heq.symm⟩
    · contradiction

theorem startable_iff :
    Startable tablePrefix base ↔ (∀ table ∈ base.world.tables, table.id ≠ []) ∧
      ∀ tableName, ¬ HasLegacyField tablePrefix base tableName := by
  constructor
  · rintro ⟨hids, hlegacy⟩
    refine ⟨hids, ?_⟩
    rintro tableName ⟨table, legacyFields, hresolve, hfields, field, hfield, hlegacyField⟩
    rw [hlegacy tableName table legacyFields hresolve hfields field hfield] at hlegacyField
    contradiction
  · rintro ⟨hids, hnone⟩
    refine ⟨hids, fun tableName table legacyFields hresolve hfields field hfield => ?_⟩
    rw [← Bool.not_eq_true]
    intro hlegacyField
    exact hnone tableName ⟨table, legacyFields, hresolve, hfields, field, hfield, hlegacyField⟩

theorem SchemaGrows.ids_ne_nil (h : SchemaGrows tablePrefix base base')
    (hids : ∀ table ∈ base.world.tables, table.id ≠ []) :
    ∀ table ∈ base'.world.tables, table.id ≠ [] := by
  intro table htable
  rcases h.ids table htable with hold | hid
  · exact hids table hold
  · exact hid

/-- The base stays one that the startup accepts. -/
theorem Startable.grows (hstart : Startable tablePrefix base)
    (h : SchemaGrows tablePrefix base base') : Startable tablePrefix base' := by
  obtain ⟨hids, hnone⟩ := startable_iff.mp hstart
  rw [startable_iff]
  exact ⟨h.ids_ne_nil hids, fun tableName => mt h.hasLegacyField_iff.mp (hnone tableName)⟩

/-! ## One new table -/

theorem resolve_eq_or (tables : List TableMeta) (tableName : JsString) :
    resolve tablePrefix tables tableName =
      (tables.find? fun t => t.title = getPrefixedTableName tablePrefix tableName).or
        (tables.find? fun t => t.table_name = some (getPrefixedTableName tablePrefix tableName)) :=
  rfl

theorem resolve_append_of_some {tables : List TableMeta} {created table : TableMeta}
    {tableName other : JsString} (hnone : resolve tablePrefix tables other = none)
    (htitle : created.title = getPrefixedTableName tablePrefix other)
    (h : resolve tablePrefix tables tableName = some table) :
    resolve tablePrefix (tables ++ [created]) tableName = some table := by
  have hne : ¬ created.title = getPrefixedTableName tablePrefix tableName := by
    rw [htitle, getPrefixedTableName_inj]
    intro heq
    rw [heq, h] at hnone
    contradiction
  have htitles : (tables ++ [created]).find? (fun t =>
      t.title = getPrefixedTableName tablePrefix tableName) =
        tables.find? fun t => t.title = getPrefixedTableName tablePrefix tableName :=
    find_concat_of_not hne
  rw [resolve_eq_or, htitles]
  rcases Option.or_eq_some_iff.mp h with hfind | ⟨hfind, hname⟩
  · rw [hfind, Option.some_or]
  · rw [hfind, Option.none_or, find_concat_of_some hname]

theorem resolve_append_self {tables : List TableMeta} {created : TableMeta} {tableName : JsString}
    (hnone : resolve tablePrefix tables tableName = none)
    (htitle : created.title = getPrefixedTableName tablePrefix tableName) :
    resolve tablePrefix (tables ++ [created]) tableName = some created := by
  obtain ⟨hnoTitle, -⟩ := Option.or_eq_none_iff.mp hnone
  rw [resolve_eq_or, find_concat_of_none hnoTitle htitle, Option.some_or]

theorem schemaGrows_addTable {created : TableMeta} {tableName : JsString} {fields : List NocoField}
    (hnone : resolve tablePrefix base.world.tables tableName = none)
    (htitle : created.title = getPrefixedTableName tablePrefix tableName)
    (hid : created.id ≠ []) (hfresh : ¬ base.HasTable created.id)
    (hlinks : ∀ field ∈ fields, field.type ∉ linkFieldTypes) :
    SchemaGrows tablePrefix base (base.addTable created fields) := by
  have hne : ∀ tableId, base.HasTable tableId → tableId ≠ created.id := by
    rintro tableId hhas rfl
    contradiction
  have hhas : ∀ tableId, (base.addTable created fields).HasTable tableId →
      base.HasTable tableId ∨ tableId = created.id := by
    intro tableId h
    rw [Base.HasTable, Base.addTable, List.map_append, List.mem_append] at h
    exact h.imp_right List.mem_singleton.mp
  have hmem : ∀ table ∈ (base.addTable created fields).world.tables,
      table ∈ base.world.tables ∨ table = created := by
    intro table htable
    rw [Base.addTable, List.mem_append] at htable
    exact htable.imp_right List.mem_singleton.mp
  constructor
  · exact List.prefix_append _ _
  · intro table htable
    rcases hmem table htable with hold | rfl
    · exact Or.inl hold
    · exact Or.inr hfresh
  · intro table htable
    rcases hmem table htable with hold | rfl
    · exact Or.inl hold
    · exact Or.inr hid
  · intro other table hresolve
    exact resolve_append_of_some hnone htitle hresolve
  · intro tableId h
    exact Function.update_of_ne (hne tableId h) _ _
  · intro tableId h hnot
    obtain rfl := (hhas tableId h).resolve_left hnot
    exact Function.update_self _ _ _
  · intro tableId h
    show base.fields tableId <+: Function.update base.fields created.id fields tableId
    rw [Function.update_of_ne (hne tableId h)]
  · intro tableId h field hfield hlink
    change field ∈ Function.update base.fields created.id fields tableId at hfield
    rcases hhas tableId h with hold | rfl
    · rw [Function.update_of_ne (hne tableId hold)] at hfield
      exact ⟨hold, hfield⟩
    · rw [Function.update_self] at hfield
      exact absurd hlink (hlinks field hfield)

/-! ## New fields of one table -/

/-- Fields are added to a table. -/
def Base.addFields (base : Base) (tableId : JsString) (fields : List NocoField) : Base :=
  { base with fields := Function.update base.fields tableId (base.fields tableId ++ fields) }

theorem schemaGrows_addFields {tableId : JsString} {fields : List NocoField}
    (hlinks : ∀ field ∈ fields, field.type ∉ linkFieldTypes) :
    SchemaGrows tablePrefix base (base.addFields tableId fields) := by
  constructor
  · exact List.prefix_rfl
  · exact fun table htable => Or.inl htable
  · exact fun table htable => Or.inl htable
  · exact fun tableName table hresolve => hresolve
  · exact fun other _ => rfl
  · exact fun other h hnot => absurd h hnot
  · intro other _
    show base.fields other <+: Function.update base.fields tableId _ other
    by_cases heq : other = tableId
    · rw [heq, Function.update_self]
      exact List.prefix_append _ _
    · rw [Function.update_of_ne heq]
  · intro other h field hfield hlink
    refine ⟨h, ?_⟩
    change field ∈ Function.update base.fields tableId _ other at hfield
    by_cases heq : other = tableId
    · rw [heq, Function.update_self, List.mem_append] at hfield
      rw [heq]
      exact hfield.resolve_right fun hnew => hlinks field hnew hlink
    · rwa [Function.update_of_ne heq] at hfield

/-- The fields of a definition that a table does not have. -/
def missingFields (base : Base) (tableId : JsString) (fields : List NocoField) :
    List NocoField :=
  fields.filter fun field => !((base.fields tableId).map NocoField.title).contains field.title

theorem mem_missingFields {tableId : JsString} {fields : List NocoField} {field : NocoField} :
    field ∈ missingFields base tableId fields ↔
      field ∈ fields ∧ field.title ∉ (base.fields tableId).map NocoField.title := by
  rw [missingFields, List.mem_filter, List.contains_eq_mem, Bool.not_eq_true',
    decide_eq_false_iff_not]

theorem Base.Unchanged.missingFields (h : base.Unchanged base') (tableId : JsString)
    (fields : List NocoField) :
    Store.missingFields base' tableId fields = Store.missingFields base tableId fields := by
  rw [Store.missingFields, Store.missingFields, h.fields]

theorem title_mem_addFields {tableId : JsString} {fields : List NocoField} {field : NocoField}
    (hfield : field ∈ fields) :
    field.title ∈ ((base.addFields tableId (missingFields base tableId fields)).fields
      tableId).map NocoField.title := by
  show field.title ∈ (Function.update base.fields tableId _ tableId).map NocoField.title
  rw [Function.update_self, List.map_append, List.mem_append]
  by_cases hmem : field.title ∈ (base.fields tableId).map NocoField.title
  · exact Or.inl hmem
  · right
    apply List.mem_map_of_mem
    exact mem_missingFields.mpr ⟨hfield, hmem⟩

theorem addFields_nil (tableId : JsString) : base.addFields tableId [] = base := by
  rw [Base.addFields, List.append_nil, Function.update_eq_self]

/-! ## The methods where no request fails -/

theorem nocodbBase_extends (faults : Bool) :
    (nocodbBase faults).contract.Extends (nocodb faults).contract Base.focus := by
  constructor
  · exact fun _ _ _ => trivial
  · rintro op base answer base' ⟨choice, hlegal, hrespond⟩
    obtain ⟨rfl, rfl⟩ := Prod.mk.inj hrespond
    exact ⟨_, ⟨choice.choice, hlegal, rfl⟩, rfl⟩

/-- A program of the services leaves the fields alone. -/
theorem wp_lift_nocodb {α : Type} {faults : Bool} {program : Service α}
    {post : Except Exception α → Base → Prop}
    (h : wp (nocodb faults).contract program
      (fun result world => post result { base with world := world }) base.world) :
    wp (nocodbBase faults).contract program.lift post base :=
  wp_lift (nocodbBase_extends faults) h

theorem startupRespond_of_not_fails {choice : StartupChoice} (op : SchemaOp)
    (hfails : choice.choice.fails = false) :
    startupRespond choice base (.inr op) =
      schemaAnswer choice (base.advance choice.choice.elapsed) op :=
  if_neg (by rw [hfails]; exact Bool.false_ne_true)

/-- A request for tables or fields is answered, after some time. -/
theorem wp_request {op : SchemaOp} {post : Except Exception (SchemaRes op) → Base → Prop}
    (hanswer : ∀ choice earlier, StartupChoice.legal false choice base (.inr op) = true →
      base.Unchanged earlier →
      post (schemaAnswer choice earlier op).1 (schemaAnswer choice earlier op).2) :
    wp (nocodbBase false).contract (request op) post base := by
  refine ⟨trivial, ?_⟩
  rintro result base' ⟨choice, hlegal, hrespond⟩
  have hallowed : StartupChoice.legal false choice base (.inr op) = true := hlegal
  have hfails : choice.choice.fails = false := by
    cases op <;> simp_all [StartupChoice.legal]
  have hpost := hanswer choice (base.advance choice.choice.elapsed) hallowed
    ⟨Store.Unchanged.advance _ _, rfl⟩
  have hstep : schemaAnswer choice (base.advance choice.choice.elapsed) op = (result, base') :=
    (startupRespond_of_not_fails op hfails).symm.trans hrespond
  rw [hstep] at hpost
  exact hpost

theorem wp_getTableMetadata {tableId : JsString}
    {post : Except Exception (Option (List NocoField)) → Base → Prop}
    (hhas : base.HasTable tableId)
    (hfound : ∀ base', base.Unchanged base' → post (.ok (some (base.fields tableId))) base') :
    wp (nocodbBase false).contract (getTableMetadata tableId) post base := by
  apply wp_request
  intro _ earlier _ hearlier
  rw [schemaAnswer, if_pos (hearlier.hasTable.mpr hhas), hearlier.fields]
  exact hfound earlier hearlier

theorem wp_createColumn {tableId : JsString} {field : NocoField}
    {post : Except Exception PUnit → Base → Prop} (hhas : base.HasTable tableId)
    (hcreated : ∀ earlier, base.Unchanged earlier →
      post (.ok ⟨⟩) (earlier.addField tableId field)) :
    wp (nocodbBase false).contract (createColumn tableId field) post base := by
  apply wp_request
  intro _ earlier _ hearlier
  rw [schemaAnswer, if_pos (hearlier.hasTable.mpr hhas)]
  exact hcreated earlier hearlier

theorem wp_createTable {tableName title : JsString} {fields : List NocoField}
    {post : Except Exception TableMeta → Base → Prop}
    (hcreated : ∀ (created : TableMeta) (earlier : Base),
      created.title = getPrefixedTableName tablePrefix tableName → created.id ≠ [] →
      ¬ base.HasTable created.id → base.Unchanged earlier →
      post (.ok created) (earlier.addTable created fields)) :
    wp (nocodbBase false).contract (createTable tablePrefix tableName title fields) post base := by
  apply wp_request
  intro choice earlier hlegal hearlier
  simp only [StartupChoice.legal, Bool.and_eq_true, Bool.not_eq_true', decide_eq_true_eq,
    decide_eq_false_iff_not] at hlegal
  exact hcreated _ earlier rfl hlegal.1.2 hlegal.2 hearlier

/-- The check passes or stops the startup, and nothing changes. -/
theorem wp_assertNoLegacyLinkFields {tableName fullTableName : JsString} {table : TableMeta}
    {post : Except Exception PUnit → Base → Prop}
    (hresolve : resolve tablePrefix base.world.tables tableName = some table)
    (hpass : ¬ HasLegacyField tablePrefix base tableName →
      ∀ base', base.Unchanged base' → post (.ok ⟨⟩) base')
    (hstop : HasLegacyField tablePrefix base tableName →
      ∀ base', base.Unchanged base' → post (.error (legacySchemaError fullTableName)) base') :
    wp (nocodbBase false).contract (assertNoLegacyLinkFields table.id tableName fullTableName)
      post base := by
  unfold assertNoLegacyLinkFields
  split
  · next hnone =>
      apply hpass _ base (Base.Unchanged.refl base)
      rintro ⟨_, _, _, hsome, _⟩
      rw [hnone] at hsome
      contradiction
  · next legacyFields hfields =>
      rw [wp_bind]
      apply wp_getTableMetadata (hasTable_of_resolve hresolve)
      intro base' h
      rw [onOk_ok, Option.getD_some]
      split
      · next hany =>
          apply hstop _ base' h
          exact ⟨table, legacyFields, hresolve, hfields, List.any_eq_true.mp hany⟩
      · next hany =>
          apply hpass _ base' h
          rintro ⟨other, otherFields, hother, hsome, hexists⟩
          obtain rfl := Option.some.inj (hother.symm.trans hresolve)
          obtain rfl := Option.some.inj (hsome.symm.trans hfields)
          exact hany (List.any_eq_true.mpr hexists)

/-- The fields that a table lacks are added, in the order of the definition. -/
theorem wp_ensureFieldsExist {tableId : JsString} {fields : List NocoField}
    (hhas : base.HasTable tableId) :
    wp (nocodbBase false).contract (ensureFieldsExist tableId fields)
      (byOutcome (fun base' => (base.addFields tableId
        (missingFields base tableId fields)).Unchanged base') fun _ => False) base := by
  rw [ensureFieldsExist, wp_tryCatch, wp_bind]
  apply wp_getTableMetadata hhas
  intro base₁ h₁
  rw [onOk_ok, Option.getD_some]
  -- the columns of the fields that are done are those of the table now
  apply wp_forM fun remaining base₂ => ∃ done, fields = done ++ remaining ∧
    (base.addFields tableId (missingFields base tableId done)).Unchanged base₂
  · rintro field remaining base₂ ⟨done, hfields, h₂⟩
    have hmissing : missingFields base tableId (done ++ [field]) =
        missingFields base tableId done ++ missingFields base tableId [field] :=
      List.filter_append _ _
    have hsplit : fields = (done ++ [field]) ++ remaining := by
      rw [hfields, List.append_assoc]
      rfl
    rw [ensureFieldExists]
    split
    · next hmem =>
        refine ⟨done ++ [field], hsplit, ?_⟩
        have hnone : missingFields base tableId [field] = [] := by
          rw [missingFields, List.filter_cons_of_neg (by simpa using hmem), List.filter_nil]
        rw [hmissing, hnone, List.append_nil]
        exact h₂
    · next hmem =>
        have hone : missingFields base tableId [field] = [field] := by
          rw [missingFields, List.filter_cons_of_pos (by simpa using hmem), List.filter_nil]
        rw [wp_tryCatch]
        apply wp_createColumn (h₂.hasTable.mpr hhas)
        intro earlier hearlier
        have h₃ := h₂.trans hearlier
        refine ⟨done ++ [field], hsplit, ⟨h₃.world, ?_⟩⟩
        show Function.update earlier.fields tableId (earlier.fields tableId ++ [field]) =
          Function.update base.fields tableId _
        have hself : earlier.fields tableId =
            base.fields tableId ++ missingFields base tableId done := by
          rw [h₃.fields]
          exact Function.update_self _ _ _
        rw [hself, h₃.fields, hmissing, hone, List.append_assoc]
        exact Function.update_idem _ _ _
  · rintro base₂ ⟨done, hfields, h₂⟩
    rw [List.append_nil] at hfields
    rw [hfields]
    exact h₂
  · refine ⟨[], rfl, ?_⟩
    have hnone : missingFields base tableId [] = [] := rfl
    rw [hnone, addFields_nil]
    exact h₁

/-! ## One system table -/

/-- A system table has been ensured: it is there with its fields, and nothing has changed if it
was there with its fields before. -/
structure Ensured (tablePrefix : JsString) (table : SystemTable) (base base' : Base) : Prop where
  grows : SchemaGrows tablePrefix base base'
  fields : HasFields tablePrefix base' (systemTableDefinition table)
  same : HasFields tablePrefix base (systemTableDefinition table) → base.Unchanged base'

theorem noLinks_systemTableDefinition (table : SystemTable) :
    ∀ field ∈ (systemTableDefinition table).fields, field.type ∉ linkFieldTypes := by
  cases table <;> decide

theorem HasFields.of_unchanged {tableDef : TableDefinition} (h : base.Unchanged base')
    (hfields : HasFields tablePrefix base tableDef) : HasFields tablePrefix base' tableDef :=
  hfields.grows (SchemaGrows.of_unchanged h)

/-- The fields that a system table lacked have been added. -/
theorem ensured_of_addFields {table : SystemTable} {found : TableMeta}
    (hfound : resolve tablePrefix base.world.tables table.name = some found)
    (h : (base.addFields found.id (missingFields base found.id
      (systemTableDefinition table).fields)).Unchanged base') :
    Ensured tablePrefix table base base' := by
  constructor
  · apply SchemaGrows.trans _ (SchemaGrows.of_unchanged h)
    apply schemaGrows_addFields
    intro field hfield
    exact noLinks_systemTableDefinition table field (mem_missingFields.mp hfield).1
  · apply HasFields.of_unchanged h
    exact ⟨found, hfound, fun field hfield => title_mem_addFields hfield⟩
  · rintro ⟨other, hother, htitles⟩
    obtain rfl := Option.some.inj (hother.symm.trans hfound)
    have hnone : missingFields base other.id (systemTableDefinition table).fields = [] := by
      rw [List.eq_nil_iff_forall_not_mem]
      intro field hfield
      obtain ⟨hmem, hnot⟩ := mem_missingFields.mp hfield
      exact hnot (htitles field hmem)
    rw [hnone, addFields_nil] at h
    exact h

/-- A system table has been created. -/
theorem ensured_of_addTable {table : SystemTable} {created : TableMeta} {earlier : Base}
    (hnone : resolve tablePrefix base.world.tables table.name = none)
    (htitle : created.title = getPrefixedTableName tablePrefix table.name) (hid : created.id ≠ [])
    (hfresh : ¬ base.HasTable created.id) (hearlier : base.Unchanged earlier) :
    Ensured tablePrefix table base
      (earlier.addTable created (systemTableDefinition table).fields) := by
  rw [← hearlier.hasTable] at hfresh
  constructor
  · apply (SchemaGrows.of_unchanged hearlier).trans
    rw [← hearlier.world.tables] at hnone
    exact schemaGrows_addTable hnone htitle hid hfresh (noLinks_systemTableDefinition table)
  · rw [← hearlier.world.tables] at hnone
    refine ⟨created, resolve_append_self hnone htitle, fun field hfield => ?_⟩
    show field.title ∈ (Function.update earlier.fields created.id _ created.id).map NocoField.title
    rw [Function.update_self]
    exact List.mem_map_of_mem hfield
  · rintro ⟨other, hother, -⟩
    have hsome : resolve tablePrefix base.world.tables table.name = some other := hother
    rw [hnone] at hsome
    contradiction

/-- The fields of all old tables but the one of the name are as before. -/
def OtherFieldsKept (tablePrefix tableName : JsString) (base base' : Base) : Prop :=
  ∀ tableId, base.HasTable tableId →
    (∀ table, resolve tablePrefix base.world.tables tableName = some table →
      table.id ≠ tableId) →
    base'.fields tableId = base.fields tableId

/-- What `ensureTableExists` ends with: it stops at a legacy table, or the table has been
ensured. -/
inductive EnsureOutcome (tablePrefix : JsString) (table : SystemTable) (base base' : Base) :
    Except Exception (Option JsString) → Prop
  | stopped (hlegacy : HasLegacyField tablePrefix base table.name)
      (hunchanged : base.Unchanged base') :
      EnsureOutcome tablePrefix table base base'
        (.error (legacySchemaError (getPrefixedTableName tablePrefix table.name)))
  | ensured (tableId : JsString) (hid : tableId ≠ [])
      (hnone : ¬ HasLegacyField tablePrefix base table.name)
      (hensured : Ensured tablePrefix table base base')
      (hkept : OtherFieldsKept tablePrefix table.name base base') :
      EnsureOutcome tablePrefix table base base' (.ok (some tableId))

/-- The table was missing and has been created. -/
theorem ensureOutcome_of_addTable {table : SystemTable} {created : TableMeta} {earlier : Base}
    (hnone : resolve tablePrefix base.world.tables table.name = none)
    (htitle : created.title = getPrefixedTableName tablePrefix table.name) (hid : created.id ≠ [])
    (hfresh : ¬ base.HasTable created.id) (hearlier : base.Unchanged earlier) :
    EnsureOutcome tablePrefix table base
      (earlier.addTable created (systemTableDefinition table).fields) (.ok (some created.id)) := by
  apply EnsureOutcome.ensured created.id hid
  · rintro ⟨_, _, hsome, -⟩
    rw [hnone] at hsome
    contradiction
  · exact ensured_of_addTable hnone htitle hid hfresh hearlier
  · intro tableId hhas _
    show Function.update earlier.fields created.id _ tableId = base.fields tableId
    have hne : tableId ≠ created.id := by
      rintro rfl
      contradiction
    rw [Function.update_of_ne hne, hearlier.fields]

/-- The table was there, without a legacy field, and has got its missing fields. -/
theorem ensureOutcome_of_addFields {table : SystemTable} {found : TableMeta}
    (hfound : resolve tablePrefix base.world.tables table.name = some found)
    (hid : found.id ≠ []) (hnone : ¬ HasLegacyField tablePrefix base table.name)
    (h : (base.addFields found.id (missingFields base found.id
      (systemTableDefinition table).fields)).Unchanged base') :
    EnsureOutcome tablePrefix table base base' (.ok (some found.id)) := by
  apply EnsureOutcome.ensured found.id hid hnone
  · exact ensured_of_addFields hfound h
  · intro tableId _ hother
    rw [h.fields]
    exact Function.update_of_ne (hother found hfound).symm _ _

theorem wp_ensureTableExists_outcome {table : SystemTable}
    (hids : ∀ table ∈ base.world.tables, table.id ≠ []) :
    wp (nocodbBase false).contract
      (ensureTableExists tablePrefix (systemTableDefinition table))
      (fun result base' => EnsureOutcome tablePrefix table base base' result) base := by
  -- by cases of the lookup, as the source branches
  rw [ensureTableExists, wp_bind]
  apply wp_lift_nocodb
  apply wp_getTableByName
  · intro hfaults
    contradiction
  intro world₁ h₁
  have hbase₁ : base.Unchanged { base with world := world₁ } := ⟨h₁, rfl⟩
  have hlegacy₁ : HasLegacyField tablePrefix _ table.name ↔
      HasLegacyField tablePrefix base table.name :=
    (SchemaGrows.of_unchanged hbase₁).hasLegacyField_iff
  have hname : (systemTableDefinition table).tableName = table.name := rfl
  rw [onOk_ok, hname]
  cases hfound : resolve tablePrefix base.world.tables table.name with
  | none =>
      rw [wp_tryCatch, wp_bind]
      apply wp_createTable
      intro created earlier htitle hid hfresh hearlier
      rw [hbase₁.hasTable] at hfresh
      exact ensureOutcome_of_addTable hfound htitle hid hfresh (hbase₁.trans hearlier)
  | some found =>
      have hhas := hasTable_of_resolve hfound
      have hfound₁ : resolve tablePrefix world₁.tables table.name = some found := by
        rw [h₁.tables]
        exact hfound
      show wp (nocodbBase false).contract (assertNoLegacyLinkFields found.id table.name
        (getPrefixedTableName tablePrefix table.name) >>=
        fun _ => ensureFieldsExist found.id (systemTableDefinition table).fields >>=
          fun _ => pure (some found.id)) _ _
      rw [wp_bind]
      apply wp_assertNoLegacyLinkFields hfound₁
      · intro hnone base₂ h₂
        have h₂ := hbase₁.trans h₂
        rw [onOk_ok, wp_bind]
        apply wp_mono (wp_ensureFieldsExist (h₂.hasTable.mpr hhas))
        rintro (exception | _) base₃ h₃
        · contradiction
        rw [h₂.missingFields] at h₃
        have hfields : base₃.fields = (base.addFields found.id (missingFields base found.id
            (systemTableDefinition table).fields)).fields := by
          rw [h₃.fields]
          show Function.update base₂.fields _ _ = Function.update base.fields _ _
          rw [h₂.fields]
        apply ensureOutcome_of_addFields hfound (hids found (resolve_eq_some hfound).1)
        · rwa [← hlegacy₁]
        · exact ⟨h₂.world.trans h₃.world, hfields⟩
      · intro hlegacy base₂ h₂
        exact .stopped (hlegacy₁.mp hlegacy) (hbase₁.trans h₂)

theorem wp_ensureTableExists {table : SystemTable} (hstart : Startable tablePrefix base) :
    wp (nocodbBase false).contract
      (ensureTableExists tablePrefix (systemTableDefinition table))
      (fun result base' => (∃ tableId, result = .ok (some tableId) ∧ tableId ≠ []) ∧
        Ensured tablePrefix table base base') base := by
  obtain ⟨hids, hnone⟩ := startable_iff.mp hstart
  apply wp_mono (wp_ensureTableExists_outcome hids)
  intro result base' h
  cases h with
  | stopped hlegacy _ => exact absurd hlegacy (hnone table.name)
  | ensured tableId hid _ hensured _ => exact ⟨⟨tableId, rfl, hid⟩, hensured⟩

end

end Store
end NocoMiddleware
