import OneBase.Buffer.Transparency
import OneBase.Buffer.EvictionPolicy
import OneBase.Storage.Table.HeapContents
import OneBase.Storage.Disk.DiskManager
import OneBase.Storage.Page.TablePage
import OneBase.Storage.Table.Tuple
import OneBase.Storage.Index.Structure
import OneBase.Storage.Index.Pinning
import OneBase.Storage.Index.Capacity
import OneBase.Server.Protocol
import OneBase.Server.ResultText
import OneBase.Type.Operations
import OneBase.Execution.Expressions
import OneBase.Storage.Table.TableHeap
import OneBase.Storage.Table.HeapUpdates
import OneBase.Catalog.Catalog
import OneBase.Execution.ExecutorFactory
import OneBase.Catalog.CreateIndex
import OneBase.Execution.Executors
import OneBase.Execution.HashJoin
import OneBase.Execution.Results
import OneBase.Execution.IntegerTables
import OneBase.Execution.Indexes
import OneBase.Execution.SeqScan
import OneBase.Execution.IndexScan
import OneBase.Storage.Table.SmallHeaps
import OneBase.Execution.SmallTables
import OneBase.Execution.Modifications
import OneBase.Binder.Binder
import OneBase.Execution.SelfInsert
import OneBase.Binder.JoinColumns
import OneBase.Binder.Meaning
import OneBase.Execution.Sorting
import OneBase.Binder.SelectPipeline
import OneBase.Execution.SortOrder
import OneBase.Execution.GroupKeys
import OneBase.Execution.Aggregates
import OneBase.Execution.Aggregation
import OneBase.Storage.Table.HeapStore
import OneBase.Storage.Index.Range
import OneBase.Execution.Deletion
import OneBase.Binder.Faults
import OneBase.Binder.Totality
import OneBase.Execution.CatalogRuns
import OneBase.Execution.NestedLoopJoin
import OneBase.Binder.JoinMeaning
import OneBase.Binder.FromSemantics
import OneBase.Execution.Grouping
import OneBase.Execution.PlanOutcomes
import OneBase.Binder.TableSelect
import OneBase.Binder.GroupMeaning
import OneBase.Binder.GroupedSelect
import OneBase.Binder.GroupedAnswers
import OneBase.Catalog.States
import OneBase.Execution.CatalogHistory
import OneBase.Execution.DropIndex
import OneBase.Execution.Arithmetic
import OneBase.Buffer.PageGuard
import OneBase.Lib.Holdings
import OneBase.Buffer.GuardRuns
import OneBase.Buffer.BoundedPool
import OneBase.Storage.Table.PinnedHeaps
import OneBase.Storage.Table.RefusedInsert
import OneBase.Buffer.DiskFailures
import OneBase.Execution.Restart
import OneBase.Binder.Assignments
import OneBase.Binder.SqlMeaning
import OneBase.Binder.NamedMeaning
import OneBase.Binder.BoundMeaning
import OneBase.Execution.Following
import OneBase.Execution.InsertFrom
import OneBase.Binder.InsertSelect
import OneBase.Storage.Page.PageContents
import OneBase.Buffer.SharedClient
import OneBase.Storage.Index.InsertFrames
import OneBase.Storage.Index.InsertExhausted
import OneBase.Execution.IndexedDatabase
import OneBase.Execution.IndexedRuns
import OneBase.Execution.UpdateStatement
import OneBase.Binder.StoredTypes
import OneBase.Buffer.Sessions
import OneBase.Server.Connection
import OneBase.Execution.Denotation
import OneBase.Execution.Typing
import OneBase.Optimizer.Preservation
import OneBase.Execution.FailedQueries
import OneBase.Server.HandleQuery
import OneBase.Binder.SelectTyping
import OneBase.Server.ShownResults
import OneBase.Execution.MoreFuel
import OneBase.Execution.Progress
import OneBase.Server.QueryAnswers
import OneBase.Server.ShowStatements
