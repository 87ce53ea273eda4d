import OneBase.Execution.CatalogHistory
import OneBase.Execution.IndexedDatabase
import OneBase.Execution.SortOrder
import OneBase.Server.QueryAnswers

set_option relaxedAutoImplicit false
set_option autoImplicit false

/-!
# The answers to `SHOW`

`SHOW TABLES` and `SHOW INDEXES` iterate over hash tables and sort what they find. No order of the
hash tables shows in the answer: names of tables, and names of indexes with those of their tables,
occur only once in a catalog, whatever was called before, so that they decide the order of the rows.

## Main definitions

* `OneBase.NameBefore` — the order of lists of names.
* `OneBase.textValue`, `OneBase.FitsRow` — the texts of a row.
* `OneBase.IndexInfo.shownTexts` — what `SHOW INDEXES` shows of an index.

## Main results

* `OneBase.exists_sort_of_names` — sorting by names that occur once.
* `OneBase.serves_utility` — the answer to a statement that computes its rows from the catalog.
* `OneBase.serves_showTables`, `OneBase.serves_showIndexes` — the answers.
-/

namespace OneBase

open Exec

/-! ## Sorting by names -/

/-- The first name that differs decides, byte by byte. -/
def NameBefore (names names' : List String) : Prop := names.map textBytes < names'.map textBytes

section Names

variable {α : Type} {l : List α} {lt : α → α → Cpp Bool} {names : α → List String}
  {as bs cs : List String}

/-- No names come before themselves. -/
lemma nameBefore_irrefl (as : List String) : ¬ NameBefore as as := List.lt_irrefl _

/-- The order of the names is transitive. -/
lemma nameBefore_trans (hab : NameBefore as bs) (hbc : NameBefore bs cs) : NameBefore as cs :=
  List.lt_trans hab hbc

/-- Different lists of names are comparable. -/
lemma nameBefore_trichotomous (as bs : List String) :
    NameBefore as bs ∨ as = bs ∨ NameBefore bs as := by
  by_cases hab : NameBefore as bs
  · exact .inl hab
  by_cases hba : NameBefore bs as
  · exact .inr (.inr hba)
  · have heq : as.map textBytes = bs.map textBytes :=
      List.le_antisymm (List.not_lt.1 hba) (List.not_lt.1 hab)
    exact .inr (.inl (List.map_injective_iff.2 textBytes_injective heq))

/-- Single names are ordered by their bytes. -/
lemma nameBefore_singleton {a b : String} :
    NameBefore [a] [b] ↔ textBytes a < textBytes b := by
  simp [NameBefore, List.cons_lt_cons_iff]

/-- Pairs of names are ordered by the first ones, and by the second ones where these are equal. -/
lemma nameBefore_pair {a b a' b' : String} : NameBefore [a, b] [a', b'] ↔
    textBytes a < textBytes a' ∨ a = a' ∧ textBytes b < textBytes b' := by
  simp [NameBefore, List.cons_lt_cons_iff, textBytes_injective.eq_iff]

/-- **Sorting by names.** Elements whose names differ are sorted in one way only. -/
lemma exists_sort_of_names (std : StandardLibrary) (hnames : (l.map names).Nodup)
    (hlt : ∀ a ∈ l, ∀ b ∈ l, ∃ r, lt a b = pure r ∧ (r = true ↔ NameBefore (names a) (names b))) :
    ∃ sorted, std.sort lt l = pure sorted ∧ sorted.Perm l ∧
      (sorted.map names).Pairwise NameBefore := by
  have hweak : StrictWeakOrderOn l lt :=
    strictWeakOrderOn_of_keys nameBefore_irrefl (fun _ _ _ => nameBefore_trans)
      (fun a _ b _ => nameBefore_trichotomous (names a) (names b)) hlt
  obtain ⟨sorted, hsort, hperm, hpairwise⟩ := std.sort_spec lt l hweak
  have hnodup : (sorted.map names).Nodup := (hperm.map names).nodup_iff.2 hnames
  refine ⟨sorted, hsort, hperm, ?_⟩
  rw [List.Nodup, List.pairwise_map] at hnodup
  rw [List.pairwise_map]
  refine (hpairwise.and hnodup).imp_of_mem fun {a b} ha hb hab => ?_
  obtain ⟨hba, hne⟩ := hab
  obtain ⟨r, hr, hiff⟩ := hlt b (hperm.subset hb) a (hperm.subset ha)
  rw [hr] at hba
  have hnot : ¬ NameBefore (names b) (names a) := by
    rw [← hiff]
    rintro rfl
    cases hba
  exact (nameBefore_trichotomous _ _).resolve_right fun h => h.elim hne hnot

end Names

/-! ## Rows of texts -/

/-- The value that a text is shown as. -/
def textValue (text : String) : Value := { payload := .varchar (textBytes text) }

/-- A row of these texts can be made. -/
def FitsRow (texts : List String) : Prop := ∀ text ∈ texts, (textBytes text).length + 4 < 2 ^ 32

section Texts

variable {α : Type} {l : List α} {texts : α → List String}

/-- Rows of texts that can be made. -/
lemma exists_textRows (h : ∀ a ∈ l, FitsRow (texts a)) :
    ∃ tuples, (l.mapM fun a => textRow (texts a)) = pure tuples ∧
      tuples.map Tuple.values = l.map fun a => (texts a).map textValue := by
  induction l with
  | nil => exact ⟨[], rfl, rfl⟩
  | cons a l ih =>
    obtain ⟨tuples, htuples, hvalues⟩ := ih fun b hb => h b (List.mem_cons_of_mem _ hb)
    have hwrites : ∀ v ∈ (texts a).map textValue, ∃ data, Tuple.appendValue [] v = pure data := by
      intro v hv
      obtain ⟨text, htext, rfl⟩ := List.mem_map.1 hv
      refine Value.writes_of_encodedSize (by simp [textValue, Value.getTypeId, Payload.typeId]) ?_
      have hfits := h a List.mem_cons_self text htext
      simp only [textValue, Value.encodedSize]
      omega
    obtain ⟨tuple, htuple, hrow⟩ := exists_ofValues_iff.2 hwrites
    refine ⟨tuple :: tuples, ?_, by rw [List.map_cons, List.map_cons, hrow, hvalues]⟩
    have hmade : textRow (texts a) = pure tuple := htuple
    rw [List.mapM_cons, hmade, pure_bind, htuples]
    rfl

end Texts

/-! ## The answer -/

section Answers

variable {std : StandardLibrary} {stof : String → Cpp (BitVec 32)} {parse : Bytes → ParseResult}
  {sql : Bytes} {ctx ctx' : ExecutorContext} {answer : Message} {out : Schema}
  {utilityType : UtilityType} {tableName : String} {α : Type} {l : List α}
  {texts : α → List String} {tuples : List Tuple}

/-- **The answer to a statement that computes texts from the catalog** is their table. -/
lemma serves_utility
    (hbind : bindQuery stof ctx.catalog (parse sql) =
      pure (.utility out utilityType tableName "" [] [] false))
    (hcount : out.columns.length < 2 ^ 32)
    (hlen : ∀ a ∈ l, (texts a).length = out.columns.length)
    (htuples : tuples.map Tuple.values = l.map fun a => (texts a).map textValue)
    (hrows : ∀ fuel, Returns (utilityRows std fuel utilityType tableName "" [] [] false) ctx
      tuples ctx) :
    Serves std stof parse ctx sql answer ctx' ↔
      answer = (.result, handleQueryBody out.names (l.map fun a => (texts a).map textBytes)) ∧
        ctx' = ctx := by
  have hreturns : Returns (executePlan std (tuples.length + 1)
      (.utility out utilityType tableName "" [] [] false)) ctx tuples ctx := by
    refine (returns_execute_nextResult fun st c hinit => ?_).2
      ⟨{ children := (), resultTuples := tuples }, ?_, Nat.lt_succ_self _, rfl⟩
    · obtain ⟨rows, c', -, hstate⟩ := returns_bind.1 hinit
      obtain ⟨rfl, -⟩ := returns_pure.1 hstate
      rfl
    · exact returns_bind.2 ⟨tuples, ctx, hrows _, returns_pure.2 ⟨rfl, rfl⟩⟩
  have hbody : resultText out tuples =
      handleQueryBody out.names (l.map fun a => (texts a).map textBytes) := by
    have hlengths : ∀ tuple ∈ tuples, tuple.values.length = out.columns.length := by
      intro tuple htuple
      have hmem : tuple.values ∈ l.map fun a => (texts a).map textValue := by
        rw [← htuples]
        exact List.mem_map_of_mem htuple
      obtain ⟨a, ha, heq⟩ := List.mem_map.1 hmem
      rw [← heq, List.length_map, hlen a ha]
    rw [resultText_eq hcount hlengths, htuples, List.map_map]
    refine congrArg _ (List.map_congr_left fun a _ => ?_)
    simp [textValue, Value.toBytes]
  have hserves : Serves std stof parse ctx sql
      (.result, handleQueryBody out.names (l.map fun a => (texts a).map textBytes)) ctx := by
    refine ⟨tuples.length + 1, handleQuery_eq_some_iff.2 (.inl ⟨_, ?_, rfl⟩)⟩
    rw [← hbody]
    exact (returns_queryResult_iff hbind rfl).2 ⟨tuples, hreturns, rfl⟩
  constructor
  · exact fun h => serves_unique h hserves
  · rintro ⟨rfl, rfl⟩
    exact hserves

end Answers

/-! ## The names in a catalog -/

section Catalogs

variable {c : Catalog}

/-- A name of a table occurs once. -/
lemma Catalog.Bijective.nodup_tableNames (h : c.Bijective) :
    (c.getAllTables.map fun info => [info.name]).Nodup := by
  rw [Catalog.getAllTables, List.map_map]
  refine List.Nodup.map_on ?_ h.tables_nodup.of_map
  rintro ⟨oid, info⟩ hinfo ⟨oid', info'⟩ hinfo' heq
  have hname : info.name = info'.name := List.head_eq_of_cons_eq heq
  have hnamed := (h.mem_tableNames info'.name oid).2 ⟨info, hinfo, hname⟩
  have hnamed' := (h.mem_tableNames info'.name oid').2 ⟨info', hinfo', rfl⟩
  obtain rfl := Catalog.eq_of_mem_of_nodup h.tableNames_nodup hnamed hnamed'
  rw [Catalog.eq_of_mem_of_nodup h.tables_nodup hinfo hinfo']

/-- A name of an index occurs once for each table. -/
lemma Catalog.Bijective.nodup_indexNames (h : c.Bijective) :
    (c.getAllIndexes.map fun i => [i.name, i.tableName]).Nodup := by
  rw [Catalog.getAllIndexes, List.map_map]
  refine List.Nodup.map_on ?_ h.indexes_nodup.of_map
  rintro ⟨oid, i⟩ hi ⟨oid', i'⟩ hi' heq
  obtain ⟨hname, htable, -⟩ : i.name = i'.name ∧ i.tableName = i'.tableName ∧ True := by
    simpa using heq
  obtain ⟨names, hnames, hoid⟩ := h.files_iff_lookup.1
    ((h.files_iff i'.tableName i'.name oid).2 ⟨i, hi, htable, hname⟩)
  obtain ⟨names', hnames', hoid'⟩ := h.files_iff_lookup.1
    ((h.files_iff i'.tableName i'.name oid').2 ⟨i', hi', rfl, rfl⟩)
  obtain rfl := Option.some.inj (hnames.symm.trans hnames')
  obtain rfl := Option.some.inj (hoid.symm.trans hoid')
  rw [Catalog.eq_of_mem_of_nodup h.indexes_nodup hi hi']

/-- The oids of indexes never decide. -/
lemma indexBefore_iff {i i' : IndexInfo}
    (hoid : i.name = i'.name → i.tableName = i'.tableName → i.oid = i'.oid) :
    indexBefore i i' = true ↔ NameBefore [i.name, i.tableName] [i'.name, i'.tableName] := by
  rw [nameBefore_pair]
  unfold indexBefore
  by_cases hname : i.name = i'.name
  · by_cases htable : i.tableName = i'.tableName
    · simp [hname, htable, hoid hname htable]
    · simp [hname, htable]
  · simp [hname]

/-- The tables that are found by name are those that are listed. -/
lemma Catalog.Bijective.exists_getTableByName_iff (h : c.Bijective) (name : String) :
    (∃ info, c.getTableByName name = pure (some info)) ↔
      ∃ info ∈ c.getAllTables, info.name = name := by
  constructor
  · rintro ⟨info, hinfo⟩
    obtain ⟨htable, hname⟩ := h.exists_table hinfo
    exact ⟨info, List.mem_map.2 ⟨_, h.getTable_iff.1 htable, rfl⟩, hname⟩
  · rintro ⟨info, hinfo, rfl⟩
    obtain ⟨⟨oid, info⟩, hentry, rfl⟩ := List.mem_map.1 hinfo
    have hnamed := (Catalog.lookup_eq_some_iff_mem h.tableNames_nodup).2
      ((h.mem_tableNames _ _).2 ⟨info, hentry, rfl⟩)
    have hfiled := (Catalog.lookup_eq_some_iff_mem h.tables_nodup).2 hentry
    refine ⟨info, ?_⟩
    unfold Catalog.getTableByName Catalog.mapAt
    simp only [hnamed, hfiled]
    rfl

/-- The indexes that are found by their oid are those that are listed. -/
lemma Catalog.Bijective.mem_getAllIndexes_iff (h : c.Bijective) (i : IndexInfo) :
    i ∈ c.getAllIndexes ↔ ∃ oid, c.getIndex oid = some i := by
  simp only [h.getIndex_iff]
  constructor
  · intro hi
    obtain ⟨⟨oid, i⟩, hentry, rfl⟩ := List.mem_map.1 hi
    exact ⟨oid, hentry⟩
  · rintro ⟨oid, hentry⟩
    exact List.mem_map.2 ⟨_, hentry, rfl⟩

end Catalogs

/-! ## The statements -/

/-- What `SHOW INDEXES` shows of an index. -/
def IndexInfo.shownTexts (i : IndexInfo) : List String :=
  [i.name, i.tableName, ",".intercalate (i.keySchema.columns.map Column.name)]

/-- The plan of `SHOW INDEXES`. -/
def showIndexesPlan : PlanNode :=
  .utility (.new [.new "index_name" .varchar, .new "table_name" .varchar, .new "columns" .varchar])
    .showIndexes "" "" [] [] false

section Statements

variable {std : StandardLibrary} {stof : String → Cpp (BitVec 32)} {parse : Bytes → ParseResult}
  {sql : Bytes} {ctx : ExecutorContext}

/-- **`SHOW TABLES`.** Whatever was called on the catalog before, and in whatever order its hash
tables are iterated over, the only answer of the server is the table of the names of all tables,
each of them once, in ascending order. -/
theorem serves_showTables (hcatalog : CatalogHistory ctx.catalog)
    (hfits : ∀ info ∈ ctx.catalog.getAllTables, FitsRow [info.name])
    (hbind : bindQuery stof ctx.catalog (parse sql) = pure showTablesPlan) :
    ∃ names : List String, names.Pairwise (fun a b => textBytes a < textBytes b) ∧
      (∀ name, name ∈ names ↔ ∃ info, ctx.catalog.getTableByName name = pure (some info)) ∧
      ∀ answer ctx', Serves std stof parse ctx sql answer ctx' ↔
        answer = (.result,
          handleQueryBody [textBytes "table_name"] (names.map fun name => [textBytes name])) ∧
        ctx' = ctx := by
  have hbijective := bijective_of_history hcatalog
  have hlt : ∀ a ∈ ctx.catalog.getAllTables, ∀ b ∈ ctx.catalog.getAllTables,
      ∃ r, (pure (decide (textBytes a.name < textBytes b.name)) : Cpp Bool) = pure r ∧
        (r = true ↔ NameBefore [a.name] [b.name]) :=
    fun a _ b _ => ⟨_, rfl, by rw [nameBefore_singleton, decide_eq_true_iff]⟩
  obtain ⟨sorted, hsort, hperm, hsorted⟩ :=
    exists_sort_of_names std hbijective.nodup_tableNames hlt
  obtain ⟨tuples, htuples, hvalues⟩ := @exists_textRows _ sorted (fun info => [info.name])
    fun info hinfo => hfits info (hperm.subset hinfo)
  refine ⟨sorted.map TableInfo.name, ?_, fun name => ?_, fun answer ctx' => ?_⟩
  · rw [List.pairwise_map] at hsorted ⊢
    exact hsorted.imp nameBefore_singleton.1
  · rw [hbijective.exists_getTableByName_iff, List.mem_map]
    simp only [hperm.mem_iff]
  · have hrows : ∀ fuel, Returns (utilityRows std fuel .showTables "" "" [] [] false) ctx tuples
        ctx := by
      intro fuel
      refine returns_bind.2 ⟨_, ctx, returns_getCatalog.2 ⟨rfl, rfl⟩, ?_⟩
      exact returns_bind.2 ⟨sorted, ctx, returns_ofCpp.2 ⟨hsort, rfl⟩,
        returns_ofCpp.2 ⟨htuples, rfl⟩⟩
    rw [serves_utility hbind (by decide) (fun _ _ => rfl) hvalues hrows, List.map_map]
    rfl

/-- **`SHOW INDEXES`.** The only answer of the server is the table of all indexes, each of them once
with its table and the columns of its key, in ascending order of the names of the indexes and, where
these are the same, of their tables. -/
theorem serves_showIndexes (hcatalog : CatalogHistory ctx.catalog)
    (hfits : ∀ i ∈ ctx.catalog.getAllIndexes, FitsRow i.shownTexts)
    (hbind : bindQuery stof ctx.catalog (parse sql) = pure showIndexesPlan) :
    ∃ indexes : List IndexInfo,
      (indexes.map fun i => [i.name, i.tableName]).Pairwise NameBefore ∧
      (∀ i, i ∈ indexes ↔ ∃ oid, ctx.catalog.getIndex oid = some i) ∧
      ∀ answer ctx', Serves std stof parse ctx sql answer ctx' ↔
        answer = (.result, handleQueryBody
          [textBytes "index_name", textBytes "table_name", textBytes "columns"]
          (indexes.map fun i => i.shownTexts.map textBytes)) ∧
        ctx' = ctx := by
  have hbijective := bijective_of_history hcatalog
  have hlt : ∀ a ∈ ctx.catalog.getAllIndexes, ∀ b ∈ ctx.catalog.getAllIndexes,
      ∃ r, (pure (indexBefore a b) : Cpp Bool) = pure r ∧
        (r = true ↔ NameBefore [a.name, a.tableName] [b.name, b.tableName]) := by
    refine fun a ha b hb => ⟨_, rfl, indexBefore_iff fun hname htable => ?_⟩
    have hnames : [a.name, a.tableName] = [b.name, b.tableName] := by rw [hname, htable]
    rw [List.inj_on_of_nodup_map hbijective.nodup_indexNames ha hb hnames]
  obtain ⟨sorted, hsort, hperm, hsorted⟩ :=
    exists_sort_of_names std hbijective.nodup_indexNames hlt
  obtain ⟨tuples, htuples, hvalues⟩ := exists_textRows fun i hi => hfits i (hperm.subset hi)
  refine ⟨sorted, hsorted, fun i => ?_, fun answer ctx' => ?_⟩
  · rw [hperm.mem_iff, hbijective.mem_getAllIndexes_iff]
  · have hrows : ∀ fuel, Returns (utilityRows std fuel .showIndexes "" "" [] [] false) ctx tuples
        ctx := by
      intro fuel
      refine returns_bind.2 ⟨_, ctx, returns_getCatalog.2 ⟨rfl, rfl⟩, ?_⟩
      exact returns_bind.2 ⟨sorted, ctx, returns_ofCpp.2 ⟨hsort, rfl⟩,
        returns_ofCpp.2 ⟨htuples, rfl⟩⟩
    exact serves_utility hbind (by decide) (fun _ _ => rfl) hvalues hrows

end Statements

/-- The tables `b` and `a`, created in this order. -/
def createdCatalog : Catalog where
  nextTableOid := 3
  tables := [(2, { smallTable ["x"] with name := "a", oid := 2 }),
    (1, { smallTable ["x"] with name := "b" })]
  tableNames := [("a", 2), ("b", 1)]

/-- The sample catalog has a history. -/
lemma catalogHistory_created : CatalogHistory createdCatalog := by
  have hone : CatalogHistory
      { nextTableOid := 2, tables := [(1, { smallTable ["x"] with name := "b" })],
        tableNames := [("b", 1)] } :=
    @CatalogHistory.createTable {} _ "b" (smallTable ["x"]).schema
      (.ok (some { smallTable ["x"] with name := "b" })) .empty rfl
  exact @CatalogHistory.createTable { catalog := _ } _ "a" (smallTable ["x"]).schema
    (.ok (some { smallTable ["x"] with name := "a", oid := 2 })) hone rfl

/-- `SHOW TABLES` after it. -/
theorem serves_showTables_created :
    ∃ names : List String, names.Pairwise (fun a b => textBytes a < textBytes b) ∧
      (∀ name, name ∈ names ↔
        ∃ info, createdCatalog.getTableByName name = pure (some info)) ∧
      ∀ answer ctx', Serves default (fun _ => Cpp.undefined)
          (fun _ => .success [.variableShowStmt (some "__show_tables_expanded") none])
          { catalog := createdCatalog } [] answer ctx' ↔
        answer = (.result,
          handleQueryBody [textBytes "table_name"] (names.map fun name => [textBytes name])) ∧
        ctx' = { catalog := createdCatalog } := by
  have hfits : ∀ info ∈ createdCatalog.getAllTables, FitsRow [info.name] := by
    simp only [FitsRow, length_textBytes]
    decide +kernel
  have hbind : bindShow createdCatalog (some "__show_tables_expanded") none =
      pure showTablesPlan := by
    have hlower : lowerCopy "__show_tables_expanded" = "__show_tables_expanded" := by
      decide +kernel
    simp [bindShow, hlower]
  exact @serves_showTables default _
    (fun _ => .success [.variableShowStmt (some "__show_tables_expanded") none]) []
    { catalog := createdCatalog } catalogHistory_created hfits hbind

/-- `SHOW INDEXES` after `CREATE INDEX i ON t (a)`. -/
theorem serves_showIndexes_created :
    ∃ indexes : List IndexInfo,
      (indexes.map fun i => [i.name, i.tableName]).Pairwise NameBefore ∧
      (∀ i, i ∈ indexes ↔
        ∃ oid, (smallContext ["a"] [[7]] (some 0)).catalog.getIndex oid = some i) ∧
      ∀ answer ctx', Serves default (fun _ => Cpp.undefined)
          (fun _ => .success [.variableShowStmt none (some "indexes")])
          (smallContext ["a"] [[7]] (some 0)) [] answer ctx' ↔
        answer = (.result, handleQueryBody
          [textBytes "index_name", textBytes "table_name", textBytes "columns"]
          (indexes.map fun i => i.shownTexts.map textBytes)) ∧
        ctx' = smallContext ["a"] [[7]] (some 0) := by
  have hindex : CatalogHistory (smallContext ["a"] [[7]] (some 0)).catalog :=
    @CatalogHistory.createIndex unindexedContext (smallContext ["a"] [[7]] (some 0)) 5 "i" "t" [0]
      (.ok (some 1)) catalogHistory_unindexed rfl
  have hfits : ∀ i ∈ (smallContext ["a"] [[7]] (some 0)).catalog.getAllIndexes,
      FitsRow i.shownTexts := by
    intro i hi
    obtain rfl := List.mem_singleton.1 hi
    simp only [FitsRow, length_textBytes]
    decide +kernel
  have hbind : bindShow (smallContext ["a"] [[7]] (some 0)).catalog none (some "indexes") =
      pure showIndexesPlan := by
    have hlower : lowerCopy "indexes" = "indexes" := by
      decide +kernel
    simp [bindShow, bindShowRelation, hlower, showIndexesPlan]
  exact @serves_showIndexes default _
    (fun _ => .success [.variableShowStmt none (some "indexes")]) [] _ hindex hfits hbind

end OneBase
