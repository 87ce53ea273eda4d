import OneBase.Catalog.Calls

set_option relaxedAutoImplicit false
set_option autoImplicit false

/-!
# Histories of a catalog

The catalogs after any calls of its operations, with any arguments, whether the calls returned or
threw.

## Main definitions

* `OneBase.CatalogHistory` — the catalogs that calls lead to.

## Main results

* `OneBase.exists_run_of_history` — a history is a run of the catalog's calls.
* `OneBase.bijective_of_history` — their maps hold the same facts.
-/

namespace OneBase

open Exec

/-- The catalogs after calls of `CreateTable`, `CreateIndex` and `DropIndex`, and of `InsertEntry` and
`RemoveEntry` on the indexes. Pages may change in between. -/
inductive CatalogHistory : Catalog → Prop
  | empty : CatalogHistory {}
  | createTable {ctx ctx' : ExecutorContext} {tableName : String} {schema : Schema}
      {r : Except Exception (Option TableInfo)} (hctx : CatalogHistory ctx.catalog)
      (hrun : runIn (Catalog.createTable tableName schema) ctx = some (r, ctx')) :
      CatalogHistory ctx'.catalog
  | createIndex {ctx ctx' : ExecutorContext} {fuel : ℕ} {indexName tableName : String}
      {keyAttrs : List ℕ} {r : Except Exception (Option ℕ)} (hctx : CatalogHistory ctx.catalog)
      (hrun : runIn (Catalog.createIndex fuel indexName tableName keyAttrs) ctx = some (r, ctx')) :
      CatalogHistory ctx'.catalog
  | dropIndex {c : Catalog} (hc : CatalogHistory c) (indexName tableName : String) :
      CatalogHistory (c.dropIndex indexName tableName).2
  | insertEntry {c : Catalog} (hc : CatalogHistory c) (oid : ℕ) (key : ℤ) (rid : RID) :
      CatalogHistory (c.modifyIndex oid fun i => i.insertEntry key rid)
  | removeEntry {c : Catalog} (hc : CatalogHistory c) (oid : ℕ) (key : ℤ) (rid : RID) :
      CatalogHistory (c.modifyIndex oid fun i => i.removeEntry key rid)

/-- A history is a run of the catalog's calls. -/
lemma exists_run_of_history {c : Catalog} (h : CatalogHistory c) :
    ∃ calls, Transition.Run CatalogStep {} calls c := by
  induction h with
  | empty => exact ⟨[], .nil _⟩
  | createTable _ hrun ih =>
    obtain ⟨calls, hcalls⟩ := ih
    rw [Catalog.runIn_createTable] at hrun
    obtain ⟨⟨⟨r, c'⟩, bpm⟩, hcall, heq⟩ := Option.map_eq_some_iff.1 hrun
    obtain ⟨rfl, rfl⟩ := Prod.mk.inj heq
    exact ⟨_, hcalls.append (.cons (.createTable hcall) (.nil _))⟩
  | createIndex _ hrun ih =>
    obtain ⟨calls, hcalls⟩ := ih
    rw [Catalog.runIn_createIndex] at hrun
    obtain ⟨⟨⟨r, c'⟩, bpm⟩, hcall, heq⟩ := Option.map_eq_some_iff.1 hrun
    obtain ⟨rfl, rfl⟩ := Prod.mk.inj heq
    exact ⟨_, hcalls.append (.cons (.createIndex hcall) (.nil _))⟩
  | dropIndex _ indexName tableName ih =>
    obtain ⟨calls, hcalls⟩ := ih
    exact ⟨_, hcalls.append (.cons (.dropIndex _ indexName tableName) (.nil _))⟩
  | insertEntry _ oid key rid ih =>
    obtain ⟨calls, hcalls⟩ := ih
    exact ⟨_, hcalls.append (.cons (.insertEntry _ oid key rid) (.nil _))⟩
  | removeEntry _ oid key rid ih =>
    obtain ⟨calls, hcalls⟩ := ih
    exact ⟨_, hcalls.append (.cons (.removeEntry _ oid key rid) (.nil _))⟩

/-- The maps of a catalog hold the same facts, whatever was called. -/
lemma bijective_of_history {c : Catalog} (h : CatalogHistory c) : c.Bijective := by
  obtain ⟨calls, hcalls⟩ := exists_run_of_history h
  exact (Catalog.Records.empty.run hcalls).bijective

end OneBase
