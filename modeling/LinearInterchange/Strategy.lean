import LinearInterchange.Instance.Basic
import LinearInterchange.Options

/-! # Direction strategies

Not every input says in which direction its objective is optimised. A strategy settles it: an
override wins over the input, a default fills in where the input is silent. -/

namespace LinearInterchange

/-- The directions that override the input and that fill in for it. -/
structure Strategy where
  override : Option Direction := none
  fallback : Option Direction := none
  deriving DecidableEq

namespace Strategy

/-- The keys under which readers accept a strategy among their options. -/
def keys : List String := ["opt_strategy", "default_opt_strategy"]

/-- The strategy that is set among the options of a reader. -/
def ofOptions (opts : Options) : Except ConfigError Strategy := do
  let override ← opts.getDirection "opt_strategy"
  let fallback ← opts.getDirection "default_opt_strategy"
  return { override, fallback }

/-- The direction to optimise in, given the one that was read. -/
def resolve (s : Strategy) (read : Direction) : Direction :=
  match s.override, read, s.fallback with
  | some d, _, _ => d
  | none, .unspecified, some d => d
  | none, d, _ => d

/-- The strategy that takes the settings of the first one where it has them. -/
def orElse (s t : Strategy) : Strategy where
  override := s.override <|> t.override
  fallback := s.fallback <|> t.fallback

/-- Gives the objective of an instance its resolved direction. -/
def apply (s : Strategy) (inst : Instance) : Instance :=
  inst.setDirection (s.resolve inst.objective.direction)

end Strategy

/-- Refuses keys that neither a reader of its own nor a strategy has. -/
def Options.checkReaderKeys (opts : Options) (component : String) (own : List String) :
    Except ConfigError Unit :=
  opts.checkKeys component (own ++ Strategy.keys)

end LinearInterchange
