import Backtrack.Log.Filter
import Backtrack.Stream

/-! The configuration: how streams are named and folded, how sources are bounded, what is logged, and what
the command line puts in the place of these values. -/

namespace Backtrack

structure StreamConfig where
  sourceName : String
  caseFold : Bool
  markCapacity : Nat
deriving DecidableEq, Repr

instance : Inhabited StreamConfig where
  default := ⟨"<input>", false, 8⟩

structure SourceConfig where
  backupWindow : Option Nat
  readChunkSize : Nat
deriving DecidableEq, Repr

instance : Inhabited SourceConfig where
  default := ⟨none, 4096⟩

/-- A level for everything, and levels for single phases that take its place. -/
structure LogConfig where
  overall : Log.Level
  stream : Option Log.Level
  source : Option Log.Level
  cli : Option Log.Level
deriving DecidableEq, Repr

instance : Inhabited LogConfig where
  default := ⟨.info, none, none, none⟩

def LogConfig.levelFor (c : LogConfig) : Log.Phase → Log.Level
  | .stream => c.stream.getD c.overall
  | .source => c.source.getD c.overall
  | .cli => c.cli.getD c.overall

/-- The filter with a directive for the target of each phase. -/
def LogConfig.filter (c : LogConfig) : Log.Filter where
  overall := c.overall
  directives := Log.Phase.all.map fun phase => ⟨phase.target.toList, c.levelFor phase⟩

structure Config where
  stream : StreamConfig
  source : SourceConfig
  log : LogConfig
deriving DecidableEq, Repr

instance : Inhabited Config where
  default := ⟨default, default, default⟩

namespace SourceConfig

def openText (c : SourceConfig) (text : List Char) : Source :=
  Source.ofText text c.backupWindow

def openReader (c : SourceConfig) (reader : Reader) : Except Breach Source :=
  Source.openReader reader c.backupWindow c.readChunkSize

end SourceConfig

/-- A stream over a source, if its marks have room, and the report of its creation. -/
def StreamConfig.openStream (c : StreamConfig) (source : Source) : Except Breach Stream × Journal :=
  Stream.createWithCapacity source c.sourceName c.caseFold c.markCapacity

/-- What the command line puts in the place of configured values. -/
structure Overrides where
  logLevel : Option String
  caseFold : Bool
  sourceName : Option String
deriving DecidableEq, Repr

/-- The configuration with a level for everything and the other overrides in it. Case folding can be
turned on, but not off. -/
def Config.overrideWith (c : Config) (o : Overrides) (overall : Log.Level) : Config where
  stream :=
    { c.stream with
      caseFold := o.caseFold || c.stream.caseFold
      sourceName := o.sourceName.getD c.stream.sourceName }
  source := c.source
  log := { c.log with overall := overall }

/-- The configuration with the overrides in it. A level that has no meaning is given back. -/
def Config.override (c : Config) (o : Overrides) : Except String Config :=
  match o.logLevel with
  | none => .ok (c.overrideWith o c.log.overall)
  | some name =>
    match Log.Level.parse? name with
    | some level => .ok (c.overrideWith o level)
    | none => .error name

end Backtrack
