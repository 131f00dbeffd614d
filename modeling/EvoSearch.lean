import EvoSearch.Fault
import EvoSearch.Word
import EvoSearch.Room
import EvoSearch.Script
import EvoSearch.Random.Range
import EvoSearch.Random.Stream
import EvoSearch.Random.Draw
import EvoSearch.Random.Sample
import EvoSearch.Decimal.Text
import EvoSearch.Json.Printer
import EvoSearch.Json.Reader
import EvoSearch.Json.Decode
import EvoSearch.Program.Basic
import EvoSearch.Program.Count
import EvoSearch.Program.Text
import EvoSearch.Program.Json
import EvoSearch.Numeric
import EvoSearch.Config.Evolution
import EvoSearch.Config.Experiment
import EvoSearch.Config.Json
import EvoSearch.Record
import EvoSearch.Population.Basic
import EvoSearch.Population.Selection
import EvoSearch.Collaborator
import EvoSearch.Hurdle
import EvoSearch.Diversity
import EvoSearch.Archive.Grid
import EvoSearch.Archive.Basic
import EvoSearch.Archive.Refill
import EvoSearch.Synthetic.Generation
import EvoSearch.Synthetic.Mutation
import EvoSearch.Synthetic.Objective
import EvoSearch.Report.Stats
import EvoSearch.Report.Schedule
import EvoSearch.Store.Call
import EvoSearch.Store.Memory
import EvoSearch.Store.Database
import EvoSearch.Act
import EvoSearch.Migration
import EvoSearch.Engine.Basic
import EvoSearch.Engine.Generation
import EvoSearch.Engine.Run
import EvoSearch.Store.Image
import EvoSearch.Store.Journal
import EvoSearch.Cli.Path
import EvoSearch.Cli.Host
import EvoSearch.Cli.Location
import EvoSearch.Cli.Mount
import EvoSearch.Cli.Shelf
import EvoSearch.Cli.RunId
import EvoSearch.Cli.Experiment
import EvoSearch.Cli.Command
import EvoSearch.Cli.Rehearsal
import EvoSearch.Main
import EvoSearch.Proofs.Order
import EvoSearch.Proofs.Dialogue
import EvoSearch.Proofs.Peak
import EvoSearch.Proofs.Splice
import EvoSearch.Proofs.Elites
import EvoSearch.Proofs.Generation
import EvoSearch.Proofs.Parts
import EvoSearch.Proofs.Elitism
import EvoSearch.Proofs.BestEver
import EvoSearch.Proofs.Sharing
import EvoSearch.Proofs.Exchange
import EvoSearch.Proofs.Provenance
import EvoSearch.Proofs.Fleet
import EvoSearch.Proofs.Chance
import EvoSearch.Proofs.Synthesis
import EvoSearch.Proofs.Faultless
import EvoSearch.Proofs.Lockstep
import EvoSearch.Proofs.Noninterference
import EvoSearch.Proofs.HurdleHistory
import EvoSearch.Proofs.ArchiveHistory
import EvoSearch.Proofs.Pairing
import EvoSearch.Proofs.Mirror
import EvoSearch.Proofs.Likeness
import EvoSearch.Proofs.ExactTier
import EvoSearch.Proofs.Turns
import EvoSearch.Proofs.Resumption
import EvoSearch.Proofs.Accounts
import EvoSearch.Proofs.Grading
import EvoSearch.Proofs.Regrading
import EvoSearch.Proofs.Selection
import EvoSearch.Proofs.ReadBack
import EvoSearch.Proofs.Encoding
import EvoSearch.Proofs.Sampling
import EvoSearch.Proofs.Tables
import EvoSearch.Proofs.Backends
import EvoSearch.Proofs.Reports
import EvoSearch.Proofs.Timetable
import EvoSearch.Proofs.Drawing
import EvoSearch.Proofs.FirstBest
import EvoSearch.Proofs.Refilling
import EvoSearch.Proofs.Landing
import EvoSearch.Proofs.Fractions
import EvoSearch.Proofs.Percentile
import EvoSearch.Proofs.SearchSpace
import EvoSearch.Proofs.ForeignRows
import EvoSearch.Proofs.Addressing
import EvoSearch.Proofs.Variations
import EvoSearch.Proofs.Settings
import EvoSearch.Proofs.Legibility
import EvoSearch.Proofs.Connected
import EvoSearch.Proofs.Values
import EvoSearch.Proofs.Rounding
import EvoSearch.Proofs.Arithmetic
import EvoSearch.Proofs.Summation
import EvoSearch.Proofs.Diversity
import EvoSearch.Proofs.ScoreRange
import EvoSearch.Proofs.Uniformity
