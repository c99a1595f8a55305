import LinearInterchange.CommandLine.Convert
import LinearInterchange.CommandLine.Generate
import LinearInterchange.CommandLine.Outcome
import LinearInterchange.CommandLine.Switch
import LinearInterchange.Constraint
import LinearInterchange.Conversion.Batch
import LinearInterchange.Conversion.Converter
import LinearInterchange.Conversion.Folder
import LinearInterchange.Conversion.Outlet
import LinearInterchange.Conversion.Reader
import LinearInterchange.Conversion.Registry
import LinearInterchange.Conversion.Writer
import LinearInterchange.Format.Asp.Clingcon
import LinearInterchange.Format.Asp.Facts
import LinearInterchange.Format.Asp.Quoted
import LinearInterchange.Format.Exchange.Line
import LinearInterchange.Format.Exchange.Reader
import LinearInterchange.Format.Exchange.Writer
import LinearInterchange.Format.FlatZinc.Item
import LinearInterchange.Format.FlatZinc.Reader
import LinearInterchange.Format.FlatZinc.Scope
import LinearInterchange.Format.Knapsack.Basic
import LinearInterchange.Format.Knapsack.Generator
import LinearInterchange.Format.Knapsack.Reader
import LinearInterchange.Format.Lp.Reader
import LinearInterchange.Format.Lp.Section
import LinearInterchange.Format.Lp.Statement
import LinearInterchange.Format.Lp.Token
import LinearInterchange.Format.Mps.Reader
import LinearInterchange.Format.Sugar
import LinearInterchange.Format.Table.Column
import LinearInterchange.IdCounter
import LinearInterchange.Input.Number
import LinearInterchange.Input.Position
import LinearInterchange.Input.Source
import LinearInterchange.Input.Stream
import LinearInterchange.Instance.Basic
import LinearInterchange.Instance.Integral
import LinearInterchange.Instance.ThreeTerm
import LinearInterchange.KeyMap
import LinearInterchange.Main
import LinearInterchange.Number.Coeff
import LinearInterchange.Number.Decimal
import LinearInterchange.Number.Word
import LinearInterchange.Objective
import LinearInterchange.Options
import LinearInterchange.Output.Emit
import LinearInterchange.Output.Limits
import LinearInterchange.Strategy
import LinearInterchange.Term
import LinearInterchange.Text.Blank
import LinearInterchange.Text.IntegerText
import LinearInterchange.Text.Parser
import LinearInterchange.Text.Printable
import LinearInterchange.Text.Quoted
import LinearInterchange.Variable
import LinearInterchange.Proofs.Outcome
import LinearInterchange.Proofs.Declarations
import LinearInterchange.Proofs.Arithmetic
import LinearInterchange.Proofs.Merging
import LinearInterchange.Proofs.Scaling
import LinearInterchange.Proofs.Solutions
import LinearInterchange.Proofs.PairSum
import LinearInterchange.Proofs.Splitting
import LinearInterchange.Proofs.SplitSolutions
import LinearInterchange.Proofs.Operations
import LinearInterchange.Proofs.Emission
import LinearInterchange.Proofs.SolverForm
import LinearInterchange.Proofs.SplitBlocks
import LinearInterchange.Proofs.SplitClosedForm
import LinearInterchange.Proofs.Normalization
import LinearInterchange.Proofs.WriterAcceptance
import LinearInterchange.Proofs.SolverOutput
import LinearInterchange.Proofs.Parsing
import LinearInterchange.Proofs.NumberText
import LinearInterchange.Proofs.ExchangeLine
import LinearInterchange.Proofs.LineStream
import LinearInterchange.Proofs.ExchangeRoundTrip
import LinearInterchange.Proofs.Words
import LinearInterchange.Proofs.SoundInstances
import LinearInterchange.Proofs.ConverterRuns
import LinearInterchange.Proofs.KnapsackInstances
import LinearInterchange.Proofs.CountedRuns
import LinearInterchange.Proofs.StreamLoops
import LinearInterchange.Proofs.KnapsackReader
import LinearInterchange.Proofs.KnapsackRoundTrip
import LinearInterchange.Proofs.TableColumns
import LinearInterchange.Proofs.MpsReader
import LinearInterchange.Proofs.LpStatements
import LinearInterchange.Proofs.LpReader
import LinearInterchange.Proofs.FlatZincReader
import LinearInterchange.Proofs.ExchangeReader
import LinearInterchange.Proofs.ReaderSafety
import LinearInterchange.Proofs.StreamReading
import LinearInterchange.Proofs.ReaderSteps
import LinearInterchange.Proofs.Resumption
import LinearInterchange.Proofs.FlatZincMeaning
import LinearInterchange.Proofs.FlatZincSolutions
import LinearInterchange.Proofs.MpsFacts
import LinearInterchange.Proofs.TableInstances
import LinearInterchange.Proofs.MpsState
import LinearInterchange.Proofs.MpsLines
import LinearInterchange.Proofs.MpsMatrix
import LinearInterchange.Proofs.QuotedNames
import LinearInterchange.Proofs.ClingconListing
import LinearInterchange.Proofs.FactsListing
import LinearInterchange.Proofs.SolverListings
import LinearInterchange.Proofs.Batches
import LinearInterchange.Proofs.CommittedInstances
import LinearInterchange.Proofs.FolderFiles
import LinearInterchange.Proofs.OutletFiles
import LinearInterchange.Proofs.Reseeking
import LinearInterchange.Proofs.TextStreams
import LinearInterchange.Proofs.LpPlaces
import LinearInterchange.Proofs.ParserRelations
import LinearInterchange.Proofs.LpLayout
import LinearInterchange.Proofs.TextPositions
import LinearInterchange.Proofs.FlatZincTexts
import LinearInterchange.Proofs.ErrorPositions
import LinearInterchange.Proofs.FlatZincItems
import LinearInterchange.Proofs.FlatZincLayout
import LinearInterchange.Proofs.FlatZincAnnotations
import LinearInterchange.Proofs.Numerals
import LinearInterchange.Proofs.NumeralReading
import LinearInterchange.Proofs.PrintedCoefficients
import LinearInterchange.Proofs.LpConstraints
import LinearInterchange.Proofs.BoundMeaning
import LinearInterchange.Proofs.LpBounds
import LinearInterchange.Proofs.BoundStatements
import LinearInterchange.Proofs.NumberRefusals
import LinearInterchange.Proofs.MergedConstraints
import LinearInterchange.Proofs.Evaluation
import LinearInterchange.Proofs.Satisfaction
import LinearInterchange.Proofs.FailureNumbers
import LinearInterchange.Proofs.StreamCounts
import LinearInterchange.Proofs.SugarObjective
import LinearInterchange.Proofs.SugarNames
import LinearInterchange.Proofs.GeneratedStreams
import LinearInterchange.Proofs.ColumnDomains
import LinearInterchange.Proofs.OptionTexts
import LinearInterchange.Proofs.FlatZincExpressions
import LinearInterchange.Proofs.FreshNames
import LinearInterchange.Proofs.CounterHistories
