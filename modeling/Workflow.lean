import Workflow.Attempt
import Workflow.Catalogue.Basic
import Workflow.Catalogue.ProcessType
import Workflow.Catalogue.Reading
import Workflow.Catalogue.StepStatus
import Workflow.Catalogue.StepType
import Workflow.Change
import Workflow.CommandLine
import Workflow.Connection
import Workflow.Decimal.Binary
import Workflow.Decimal.Layout
import Workflow.Decimal.Rounding
import Workflow.Decimal.Shortest
import Workflow.Dispatch
import Workflow.Document.Basic
import Workflow.Document.Plain
import Workflow.Document.Reader
import Workflow.Drain
import Workflow.Failure
import Workflow.Handlers
import Workflow.Lease
import Workflow.Main
import Workflow.Manual
import Workflow.Notice
import Workflow.Paging
import Workflow.Paging.Changing
import Workflow.Pause
import Workflow.Process
import Workflow.Program
import Workflow.Proofs.Attempt.Account
import Workflow.Proofs.Attempt.Alone
import Workflow.Proofs.Attempt.Assertions
import Workflow.Proofs.Attempt.Atomic
import Workflow.Proofs.Attempt.Bench
import Workflow.Proofs.Attempt.Conflict
import Workflow.Proofs.Attempt.Contract
import Workflow.Proofs.Attempt.Course
import Workflow.Proofs.Attempt.Drain
import Workflow.Proofs.Attempt.Failing
import Workflow.Proofs.Attempt.Frame
import Workflow.Proofs.Attempt.History
import Workflow.Proofs.Attempt.Lease
import Workflow.Proofs.Attempt.Onward
import Workflow.Proofs.Attempt.Order
import Workflow.Proofs.Attempt.Release
import Workflow.Proofs.Attempt.Requests
import Workflow.Proofs.Attempt.Result
import Workflow.Proofs.Attempt.Rules
import Workflow.Proofs.Attempt.Scene
import Workflow.Proofs.Attempt.Version
import Workflow.Proofs.Crew.Basic
import Workflow.Proofs.Crew.Exclusion
import Workflow.Proofs.Crew.Office
import Workflow.Proofs.Crew.Takeover
import Workflow.Proofs.Crew.Timed
import Workflow.Proofs.Drain.Agenda
import Workflow.Proofs.Drain.Effect
import Workflow.Proofs.Drain.Generator
import Workflow.Proofs.Drain.Ledger
import Workflow.Proofs.Drain.Mirror
import Workflow.Proofs.Drain.Outcome
import Workflow.Proofs.Drain.Preview
import Workflow.Proofs.Drain.Sequence
import Workflow.Proofs.Drain.Simulation
import Workflow.Proofs.Drain.Verdict
import Workflow.Proofs.Drain.Watch
import Workflow.Proofs.Drain.Yield
import Workflow.Proofs.Isolation.Attempt
import Workflow.Proofs.Isolation.Clerk
import Workflow.Proofs.Isolation.Cycle
import Workflow.Proofs.Isolation.Stock
import Workflow.Proofs.Lease.Mirror
import Workflow.Proofs.Lease.Race
import Workflow.Proofs.Manual.Agreement
import Workflow.Proofs.Manual.Conclusion
import Workflow.Proofs.Manual.Context
import Workflow.Proofs.Manual.Extension
import Workflow.Proofs.Manual.Gate
import Workflow.Proofs.Manual.Guard
import Workflow.Proofs.Manual.Mirror
import Workflow.Proofs.Manual.Resolution
import Workflow.Proofs.Manual.Worksheet
import Workflow.Proofs.Paging.Changing
import Workflow.Proofs.Paging.Eligible
import Workflow.Proofs.Paging.Page
import Workflow.Proofs.Paging.Visit
import Workflow.Proofs.Rows.Advance
import Workflow.Proofs.Rows.Commit
import Workflow.Proofs.Rows.Frame
import Workflow.Proofs.Rows.Keyed
import Workflow.Proofs.Rows.Owned
import Workflow.Proofs.Rows.Respect
import Workflow.Proofs.Saving.Session
import Workflow.Proofs.Saving.Stores
import Workflow.Proofs.Saving.View
import Workflow.Proofs.Session.Attempt
import Workflow.Proofs.Session.Contents
import Workflow.Proofs.Session.Discovery
import Workflow.Proofs.Session.World
import Workflow.Proofs.Statement.Database
import Workflow.Proofs.Statement.Dialogue
import Workflow.Proofs.Statement.Filled
import Workflow.Proofs.Statement.Reader
import Workflow.Proofs.Statement.Server
import Workflow.Proofs.Tables.Agreement
import Workflow.Proofs.Tables.Chronology
import Workflow.Proofs.Tables.Commit
import Workflow.Proofs.Tables.Contents
import Workflow.Proofs.Tables.Question
import Workflow.Proofs.Tables.Record
import Workflow.Proofs.Tables.Taken
import Workflow.Proofs.Time.Calendar
import Workflow.Proofs.Time.Column
import Workflow.Proofs.Worker.Diary
import Workflow.Proofs.Worker.Exact
import Workflow.Proofs.Worker.Timing
import Workflow.Query
import Workflow.Resolution
import Workflow.Rows
import Workflow.Session.Crew
import Workflow.Session.Deed
import Workflow.Session.Desk
import Workflow.Session.Perform
import Workflow.Session.Store
import Workflow.Session.Work
import Workflow.Session.World
import Workflow.Settings.Basic
import Workflow.Settings.Coercion
import Workflow.Settings.Place
import Workflow.Statement
import Workflow.Storage
import Workflow.Tables
import Workflow.Text.Blank
import Workflow.Text.Capital
import Workflow.Text.Digit
import Workflow.Time.Calendar
import Workflow.Time.Seconds
import Workflow.Time.Span
import Workflow.Time.Timestamp
import Workflow.Time.Written
import Workflow.Update
import Workflow.Uuid
import Workflow.Worker
