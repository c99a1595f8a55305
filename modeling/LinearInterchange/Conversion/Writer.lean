import LinearInterchange.Format.Asp.Clingcon
import LinearInterchange.Format.Asp.Facts
import LinearInterchange.Format.Exchange.Writer
import LinearInterchange.Format.Sugar
import LinearInterchange.Options

/-! # Writers -/

namespace LinearInterchange

/-- The formats that can be written. -/
inductive WriterKind where
  | sugar
  | facts
  | clingcon
  | exchange
  deriving DecidableEq

/-- A format that can be written, with its settings. -/
inductive OutputFormat where
  /-- The objective goes through a variable of the given name. -/
  | sugar (objectiveVar : String)
  | facts
  /-- Objectives without direction get the given one. -/
  | clingcon (fallback : Direction)
  /-- The text may begin with a comment. -/
  | exchange (comments : Bool)
  deriving DecidableEq

/-- The format with the settings among the options. -/
def WriterKind.configure (opts : Options) : WriterKind → Except ConfigError OutputFormat
  | sugar => (Sugar.objectiveVarOf opts).map .sugar
  | facts => (opts.checkKeys "aspartame" []).map fun _ => .facts
  | clingcon => do
    opts.checkKeys "casp" ["default_direction"]
    return .clingcon ((← opts.getDirection "default_direction").getD .minimize)
  | exchange => do
    opts.checkKeys "inc" ["comments"]
    return .exchange ((← opts.getBool "comments").getD true)

namespace OutputFormat

/-- The extension of files in the format. -/
def extension : OutputFormat → String
  | sugar _ => "csp"
  | facts => "lp"
  | clingcon _ => "lp"
  | exchange _ => "inc"

/-- Writes an instance. -/
def encode (f : OutputFormat) (inst : Instance) : Emit Unit :=
  match f with
  | sugar objectiveVar => Sugar.encode objectiveVar inst
  | facts => Asp.Facts.encode inst
  | clingcon fallback => Asp.Clingcon.encode fallback inst
  | exchange comments => Exchange.encode comments inst

end OutputFormat

end LinearInterchange
