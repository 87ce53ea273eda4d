import OneBase.Execution.IntegerTables
import OneBase.Storage.Table.HeapUpdates

set_option relaxedAutoImplicit false
set_option autoImplicit false

/-!
# Databases of heaps

Every table is a heap on pages of its own. A statement that modifies a table changes its pages and
may append new ones, which no table has yet, so that the other tables do not notice.

## Main definitions

* `OneBase.HeapDatabase` — the tables.

## Main results

* `OneBase.HeapDatabase.modified` — a table that gets other rows.
-/

namespace OneBase

open TableHeap

/-- Every table is a heap on pages of its own. -/
structure HeapDatabase (ctx : ExecutorContext) (pages : ℕ → Pages) : Prop where
  table : ∀ oid info, ctx.catalog.getTable oid = some info → HeapTable ctx info (pages oid)
  apart : ∀ oid info oid' info', ctx.catalog.getTable oid = some info →
    ctx.catalog.getTable oid' = some info' → oid' ≠ oid →
    ∀ q ∈ (pages oid').map Prod.fst, q ∉ (pages oid).map Prod.fst

section Modified

variable {ctx ctx' : ExecutorContext} {pages : ℕ → Pages} {oid : ℕ} {info : TableInfo}
  {pages' : Pages}

/-- The page id that is given out next lies in no table. -/
lemma HeapDatabase.nextPageId_notMem (h : HeapDatabase ctx pages)
    (hinfo : ctx.catalog.getTable oid = some info) :
    ctx.bpm.nextPageId ∉ (pages oid).map Prod.fst := by
  intro hmem
  have htable := h.table oid info hinfo
  exact absurd (htable.holds.chain.lt_next htable.ready _ hmem).2 (lt_irrefl _)

/-- A table that gets other rows: the other tables do not notice.

**Proof sketch.** The pages of the table are those that it had, and pages with new ids. The frame
keeps the content of all the others. -/
lemma HeapDatabase.modified (h : HeapDatabase ctx pages)
    (hinfo : ctx.catalog.getTable oid = some info)
    (htables : ∀ oid', ctx'.catalog.getTable oid' = ctx.catalog.getTable oid')
    (htable : HeapTable ctx' info pages')
    (hframe : Frame ((pages oid).map Prod.fst) ctx.bpm ctx'.bpm)
    (hpages : ∀ q ∈ pages'.map Prod.fst, q ∈ (pages oid).map Prod.fst ∨ q = ctx.bpm.nextPageId) :
    HeapDatabase ctx' (Function.update pages oid pages') where
  table := by
    intro oid' info' hinfo'
    rw [htables] at hinfo'
    by_cases hoid : oid' = oid
    · subst hoid
      obtain rfl := Option.some.inj (hinfo.symm.trans hinfo')
      rw [Function.update_self]
      exact htable
    · rw [Function.update_of_ne hoid]
      have hother := h.table oid' info' hinfo'
      have hapart := h.apart oid info oid' info' hinfo hinfo' hoid
      exact ⟨htable.ready, htable.frames, hother.holds.other hother.ready hapart hframe⟩
  apart := by
    intro oid₁ info₁ oid₂ info₂ hinfo₁ hinfo₂ hne q hq₂ hq₁
    rw [htables] at hinfo₁ hinfo₂
    have hold : ∀ oid', ∀ q ∈ (Function.update pages oid pages' oid').map Prod.fst,
        q ∈ (pages oid').map Prod.fst ∨ oid' = oid ∧ q = ctx.bpm.nextPageId := by
      intro oid' q hq
      by_cases hoid : oid' = oid
      · subst hoid
        rw [Function.update_self] at hq
        exact (hpages q hq).imp_right fun hq => ⟨rfl, hq⟩
      · rw [Function.update_of_ne hoid] at hq
        exact .inl hq
    rcases hold oid₁ q hq₁ with hold₁ | ⟨rfl, rfl⟩
    · rcases hold oid₂ q hq₂ with hold₂ | ⟨rfl, rfl⟩
      · exact h.apart _ _ _ _ hinfo₁ hinfo₂ hne q hold₂ hold₁
      · exact h.nextPageId_notMem hinfo₁ hold₁
    · rcases hold oid₂ _ hq₂ with hold₂ | ⟨rfl, -⟩
      · exact h.nextPageId_notMem hinfo₂ hold₂
      · exact hne rfl

end Modified

end OneBase
