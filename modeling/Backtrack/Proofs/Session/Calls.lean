import Mathlib.Tactic.SplitIfs
import Backtrack.Session.Command

/-! The configuration of a session. Every call that needs a configuration fixes the default one if there is none yet, so
what is fixed depends on which call comes first. Whatever is called afterwards, it stays fixed, and all sources and
streams follow it. -/

namespace Backtrack.Session

/-- A call with its arguments. To open a source and to open a stream over one are calls of their own, between which any
other calls may come, and a stream may be opened over any source. What is done with open streams is also among the
calls. -/
inductive Call where
  | isInitialized
  | config
  | configOrDefault
  | init (c : Config)
  | tryInit (c : Config)
  | initWithLogger (c : Config) (layout : Log.Layout)
  | initLogger (c : LogConfig) (layout : Log.Layout) (file : Option String)
  | initTestLogger
  | openText (text : List Char)
  | openReader (reader : Reader)
  | openFile (path : String)
  | openStream (source : Source)
  | use (stream : Stream) (commands : List Stream.Command)

inductive Answer where
  | done
  | flag (b : Bool)
  | config (c : Config)
  | rejected (c : Config)
  | loggerFault (f : LoggerFault)
  | unopened (reason : String)
  | breached (b : Breach)
  | source (source : Source)
  | stream (stream : Stream)
  | steps (steps : List Stream.Step)

namespace Answer

def ofConfig : Except Breach Config → Answer
  | .ok c => .config c
  | .error b => .breached b

def ofBreach : Option Breach → Answer
  | none => .done
  | some b => .breached b

def ofRejected : Option Config → Answer
  | none => .done
  | some c => .rejected c

def ofFault : Option LoggerFault → Answer
  | none => .done
  | some f => .loggerFault f

def ofInit : Except Breach (Option LoggerFault) → Answer
  | .ok fault => ofFault fault
  | .error b => .breached b

def ofSource : Except Breach Source → Answer
  | .ok opened => .source opened
  | .error b => .breached b

def ofFile : Except String (Except Breach Source) → Answer
  | .ok opened => ofSource opened
  | .error reason => .unopened reason

def ofStream : Except Breach Stream → Answer
  | .ok opened => .stream opened
  | .error b => .breached b

/-- The call has opened something. -/
def isOpened : Answer → Bool
  | .source _ | .stream _ => true
  | _ => false

@[simp]
theorem isOpened_ofConfig (found : Except Breach Config) : (ofConfig found).isOpened = false := by
  cases found <;> rfl

@[simp]
theorem isOpened_ofBreach (breach : Option Breach) : (ofBreach breach).isOpened = false := by
  cases breach <;> rfl

@[simp]
theorem isOpened_ofRejected (rejected : Option Config) : (ofRejected rejected).isOpened = false := by
  cases rejected <;> rfl

@[simp]
theorem isOpened_ofFault (fault : Option LoggerFault) : (ofFault fault).isOpened = false := by
  cases fault <;> rfl

@[simp]
theorem isOpened_ofInit (result : Except Breach (Option LoggerFault)) : (ofInit result).isOpened = false := by
  cases result with
  | ok fault => exact isOpened_ofFault fault
  | error b => rfl

end Answer

/-- Makes a call. -/
def call (s : Session) : Call → Answer × Session
  | .isInitialized => (.flag s.isInitialized, s)
  | .config => (.ofConfig s.theConfig, s)
  | .configOrDefault => s.configOrDefault.map .config id
  | .init c => (s.init c).map .ofBreach id
  | .tryInit c => (s.tryInit c).map .ofRejected id
  | .initWithLogger c layout => (s.initWithLogger c layout).map .ofInit id
  | .initLogger c layout file => (s.initLogger c layout file).map .ofFault id
  | .initTestLogger => (.done, s.initTestLogger)
  | .openText text => (s.openText text).map .source id
  | .openReader reader => (s.openReader reader).map .ofSource id
  | .openFile path => (s.openFile path).map .ofFile id
  | .openStream source => (s.openStream source).map (.ofStream ·.1) id
  | .use stream commands => (s.runStream stream commands).map .steps id

/-- The session that calls leave behind. -/
def after (s : Session) (calls : List Call) : Session :=
  calls.foldl (fun s call => (s.call call).2) s

/-- Each of some calls with the session in which it is made. -/
def moments (s : Session) : List Call → List (Session × Call)
  | [] => []
  | call :: calls => (s, call) :: moments (s.call call).2 calls

/-- Whether there is something at the path that can be opened. -/
def canOpen (s : Session) (path : String) : Bool :=
  match s.lookup path with
  | .unavailable _ => false
  | _ => true

/-- The configuration that a call fixes where there is none yet. -/
def Call.fixes? (s : Session) : Call → Option Config
  | .init c | .tryInit c | .initWithLogger c _ => some c
  | .configOrDefault | .openText _ | .openReader _ | .openStream _ => some default
  | .openFile path => if s.canOpen path then some default else none
  | .isInitialized | .config | .initLogger .. | .initTestLogger | .use .. => none

variable {s : Session} {c : Config}

/-! ### One call -/

theorem configOrDefault_eq (s : Session) :
    s.configOrDefault = (s.config.getD default, { s with config := s.config.or (some default) }) := by
  obtain ⟨files, time, config, logger, journal⟩ := s
  cases config <;> rfl

/-- A file that can be opened is opened as the configuration says; otherwise nothing happens. -/
theorem openFile_cases (s : Session) (path : String) :
    (s.canOpen path = true ∧ ∃ reader,
        s.openFile path = (.ok (s.configOrDefault.1.source.openReader reader), s.configOrDefault.2)) ∨
      s.canOpen path = false ∧ ∃ reason, s.openFile path = (.error reason, s) := by
  unfold openFile canOpen lookup
  cases s.files.resolve path with
  | error reason => exact .inr ⟨rfl, reason, rfl⟩
  | ok place =>
      dsimp only
      cases s.entryAt place with
      | unavailable reason => exact .inr ⟨rfl, reason, rfl⟩
      | directory => exact .inl ⟨rfl, _, rfl⟩
      | sink => exact .inl ⟨rfl, _, rfl⟩
      | file bytes => exact .inl ⟨rfl, _, rfl⟩

theorem install_config (s : Session) (filter : Log.Filter) (layout : Option Log.Layout) (file : Option String) :
    (s.install filter layout file).2.config = s.config := by
  rw [install]
  split <;> rfl

theorem initLogger_config (s : Session) (c : LogConfig) (layout : Log.Layout) (file : Option String) :
    (s.initLogger c layout file).2.config = s.config := by
  unfold initLogger
  split
  · exact install_config s _ _ _
  · split
    · rfl
    · exact install_config _ _ _ _

/-- A call fixes its configuration where there is none yet, and otherwise leaves the one there is. -/
theorem call_config (s : Session) (call : Call) : (s.call call).2.config = s.config.or (call.fixes? s) := by
  cases call with
  | isInitialized => exact (Option.or_none).symm
  | config => exact (Option.or_none).symm
  | configOrDefault => simp [Session.call, configOrDefault_eq, Call.fixes?]
  | init c => cases h : s.config <;> simp [Session.call, Session.init, Call.fixes?, h]
  | tryInit c => cases h : s.config <;> simp [Session.call, Session.tryInit, Call.fixes?, h]
  | initWithLogger c layout =>
      cases h : s.config <;>
        simp [Session.call, Session.initWithLogger, Session.init, Call.fixes?, h, initLogger_config]
  | initLogger c layout file => simp [Session.call, Call.fixes?, initLogger_config]
  | initTestLogger => simp [Session.call, Call.fixes?, Session.initTestLogger, install_config]
  | openText text => simp [Session.call, Session.openText, configOrDefault_eq, Call.fixes?]
  | openReader reader => simp [Session.call, Session.openReader, configOrDefault_eq, Call.fixes?]
  | openFile path =>
      rcases s.openFile_cases path with ⟨hopen, reader, h⟩ | ⟨hopen, reason, h⟩ <;>
        simp [Session.call, Call.fixes?, h, hopen, configOrDefault_eq]
  | openStream source => simp [Session.call, Session.openStream, configOrDefault_eq, Call.fixes?, report]
  | use stream commands => simp [Session.call, Session.runStream, Call.fixes?]

/-- What is opened under a configuration: sources with its window, readers also with its chunks, and streams with its
name and its case folding and with room for as many marks as it says. -/
inductive Opened (c : Config) : Call → Answer → Prop
  | text {text : List Char} {source : Source} (hwindow : source.history.window = c.source.backupWindow) :
      Opened c (.openText text) (.source source)
  | reader {reader : Reader} {source : Source} (hwindow : source.history.window = c.source.backupWindow)
      (hchunk : source.decoder.chunkSize = max c.source.readChunkSize 1) :
      Opened c (.openReader reader) (.source source)
  | file {path : String} {source : Source} (hwindow : source.history.window = c.source.backupWindow)
      (hchunk : source.decoder.chunkSize = max c.source.readChunkSize 1) :
      Opened c (.openFile path) (.source source)
  | stream {source : Source} {stream : Stream} (hname : stream.name = c.stream.sourceName)
      (hfold : stream.caseFold = c.stream.caseFold) (hroom : stream.marks.allocated = c.stream.markCapacity) :
      Opened c (.openStream source) (.stream stream)

theorem exists_of_openReader {c : SourceConfig} {reader : Reader}
    (h : (Answer.ofSource (c.openReader reader)).isOpened = true) :
    ∃ source, c.openReader reader = .ok source ∧ source.history.window = c.backupWindow ∧
      source.decoder.chunkSize = max c.readChunkSize 1 := by
  unfold SourceConfig.openReader Source.openReader at h ⊢
  split at h
  · cases h
  · rename_i hlarge
    exact ⟨_, if_neg hlarge, rfl, rfl⟩

theorem exists_of_openStream {c : StreamConfig} {source : Source}
    (h : (Answer.ofStream (c.openStream source).1).isOpened = true) :
    ∃ stream, (c.openStream source).1 = .ok stream ∧ stream.name = c.sourceName ∧ stream.caseFold = c.caseFold ∧
      stream.marks.allocated = c.markCapacity := by
  unfold StreamConfig.openStream Stream.createWithCapacity MarkStack.allocate at h ⊢
  dsimp only at h ⊢
  split_ifs at h ⊢
  · cases h
  · cases h
  · exact ⟨_, rfl, rfl, rfl, by simp [MarkStack.allocated, MarkStack.withCapacity]⟩

theorem call_opened {call : Call} (h : (s.call call).1.isOpened = true) :
    ∃ c ∈ (s.call call).2.config, Opened c call (s.call call).1 := by
  have hfixed : s.configOrDefault.2.config = some s.configOrDefault.1 := by
    rw [configOrDefault_eq]
    cases s.config <;> rfl
  cases call with
  | openText text => exact ⟨_, hfixed, .text rfl⟩
  | openReader reader =>
      obtain ⟨source, hopen, hwindow, hchunk⟩ := exists_of_openReader h
      refine ⟨_, hfixed, ?_⟩
      have hanswer : (s.call (.openReader reader)).1 = .source source := congrArg Answer.ofSource hopen
      rw [hanswer]
      exact .reader hwindow hchunk
  | openFile path =>
      rcases s.openFile_cases path with ⟨-, reader, hfile⟩ | ⟨-, reason, hfile⟩
      · have hanswer : s.call (.openFile path) =
            (.ofSource (s.configOrDefault.1.source.openReader reader), s.configOrDefault.2) := by
          rw [Session.call, hfile]
          rfl
        rw [hanswer] at h ⊢
        obtain ⟨source, hopen, hwindow, hchunk⟩ := exists_of_openReader h
        refine ⟨_, hfixed, ?_⟩
        rw [hopen]
        exact .file hwindow hchunk
      · rw [Session.call, hfile] at h
        cases h
  | openStream source =>
      obtain ⟨stream, hopen, hname, hfold, hroom⟩ := exists_of_openStream h
      refine ⟨_, hfixed, ?_⟩
      have hanswer : (s.call (.openStream source)).1 = .stream stream := congrArg Answer.ofStream hopen
      rw [hanswer]
      exact .stream hname hfold hroom
  | isInitialized | configOrDefault | initTestLogger | use => cases h
  | config | init | tryInit | initWithLogger | initLogger => simp [Session.call] at h

/-! ### Runs of calls -/

/-- What is fixed after some calls is what the first one fixes that fixes any. -/
theorem after_config (s : Session) (calls : List Call) :
    (s.after calls).config = s.config.or ((s.moments calls).findSome? fun moment => moment.2.fixes? moment.1) := by
  induction calls generalizing s with
  | nil => exact (Option.or_none).symm
  | cons call calls ih =>
      have hrest := ih (s.call call).2
      rw [call_config, Option.or_assoc] at hrest
      rw [moments, List.findSome?_cons]
      refine hrest.trans (congrArg s.config.or ?_)
      cases call.fixes? s <;> rfl

theorem after_append (s : Session) (calls more : List Call) : s.after (calls ++ more) = (s.after calls).after more :=
  List.foldl_append

/-- A configuration that is fixed stays fixed. -/
theorem after_config_of_some (h : s.config = some c) (calls : List Call) : (s.after calls).config = some c := by
  rw [after_config, h, Option.some_or]

/-- Whatever has been opened follows the configuration that is fixed at the end. -/
theorem moments_opened {calls : List Call} {moment : Session × Call} (hmem : moment ∈ s.moments calls)
    (hopened : (moment.1.call moment.2).1.isOpened = true) :
    ∃ c ∈ (s.after calls).config, Opened c moment.2 (moment.1.call moment.2).1 := by
  induction calls generalizing s with
  | nil => cases hmem
  | cons call calls ih =>
      rcases List.mem_cons.mp hmem with rfl | hmem
      · obtain ⟨c, hc, h⟩ := call_opened hopened
        exact ⟨c, after_config_of_some hc calls, h⟩
      · exact ih hmem

/-- To open a stream over what has been opened and to use it is to make two calls. -/
theorem exists_calls_stream (s : Session) (source : Except Breach Source) (commands : List Stream.Command) :
    ∃ calls, (s.stream source commands).2 = s.after calls := by
  cases source with
  | error b => exact ⟨[], rfl⟩
  | ok source =>
      cases hopen : s.openStream source with
      | mk opened between =>
          have hcall : (s.call (.openStream source)).2 = between := by
            rw [Session.call, hopen]
            rfl
          obtain ⟨result, journal⟩ := opened
          rw [Session.stream, hopen]
          cases result with
          | error b => exact ⟨[.openStream source], hcall.symm⟩
          | ok fresh => exact ⟨[.openStream source, .use fresh commands], by rw [← hcall]; rfl⟩

/-- A command is a sequence of calls. -/
theorem exists_calls_perform (s : Session) (command : Command) : ∃ calls, (s.perform command).2 = s.after calls := by
  have hstream (first : Call) (source : Except Breach Source) (commands : List Stream.Command) :
      ∃ calls, ((s.call first).2.stream source commands).2 = s.after calls := by
    obtain ⟨calls, h⟩ := exists_calls_stream (s.call first).2 source commands
    exact ⟨first :: calls, h⟩
  cases command with
  | isInitialized => exact ⟨[.isInitialized], rfl⟩
  | config =>
      refine ⟨[.config], ?_⟩
      rw [perform]
      cases s.theConfig <;> rfl
  | configOrDefault => exact ⟨[.configOrDefault], rfl⟩
  | init c =>
      refine ⟨[.init c], ?_⟩
      rw [perform]
      split <;> simp_all [Session.after, Session.call]
  | tryInit c =>
      refine ⟨[.tryInit c], ?_⟩
      rw [perform]
      split <;> simp_all [Session.after, Session.call]
  | initWithLogger c layout =>
      refine ⟨[.initWithLogger c layout], ?_⟩
      rw [perform]
      split <;> simp_all [Session.after, Session.call]
  | initLogger c layout file =>
      refine ⟨[.initLogger c layout file], ?_⟩
      rw [perform]
      split <;> simp_all [Session.after, Session.call]
  | initTestLogger => exact ⟨[.initTestLogger], rfl⟩
  | openText text commands => exact hstream (.openText text.toList) _ commands
  | openReader bytes commands => exact hstream (.openReader (Reader.ofBytes bytes)) _ commands
  | openFile path commands =>
      rw [perform]
      split
      · rename_i reason opened hopen
        refine ⟨[.openFile path], ?_⟩
        simp [Session.after, Session.call, hopen]
      · rename_i source opened hopen
        have hcall : (s.call (.openFile path)).2 = opened := by rw [Session.call, hopen]; rfl
        exact hcall ▸ hstream (.openFile path) source commands

/-- So a run of commands is a sequence of calls too, and what holds of the calls holds of it. -/
theorem exists_calls_run (s : Session) (commands : List Command) : ∃ calls, (s.run commands).2 = s.after calls := by
  induction commands generalizing s with
  | nil => exact ⟨[], rfl⟩
  | cons command commands ih =>
      obtain ⟨first, hfirst⟩ := s.exists_calls_perform command
      obtain ⟨rest, hrest⟩ := ih (s.perform command).2
      refine ⟨first ++ rest, ?_⟩
      rw [after_append, ← hfirst]
      exact hrest

/-- The configuration is fixed by the first call with a value of `Call.fixes?`, and by no other. All that is opened
before and after follows this one configuration. Once there is one, `tryInit` gives its argument back, `init` and
`initWithLogger` panic and `config` answers; before that `config` panics. A file that cannot be opened fixes nothing. -/
theorem config_fixed_once (files : Files) (time : String) (calls : List Call) :
    let s := (start files time).after calls
    s.config = (((start files time).moments calls).findSome? fun moment => moment.2.fixes? moment.1) ∧
    (∀ c, s.config = some c → ∀ more, ((start files time).after (calls ++ more)).config = some c) ∧
    (∀ moment ∈ (start files time).moments calls, (moment.1.call moment.2).1.isOpened = true →
      ∃ c ∈ s.config, Opened c moment.2 (moment.1.call moment.2).1) ∧
    (s.config = none → s.call .config = (.breached .configMissing, s) ∧
      ∀ d, s.call (.tryInit d) = (.done, { s with config := some d }) ∧
        s.call (.init d) = (.done, { s with config := some d }) ∧
        ∀ layout, (s.call (.initWithLogger d layout)).1 ≠ .breached .configPresent) ∧
    (∀ c, s.config = some c → s.call .config = (.config c, s) ∧ s.call .configOrDefault = (.config c, s) ∧
      ∀ d, s.call (.tryInit d) = (.rejected d, s) ∧ s.call (.init d) = (.breached .configPresent, s) ∧
        ∀ layout, s.call (.initWithLogger d layout) = (.breached .configPresent, s)) ∧
    s.call .isInitialized = (.flag s.config.isSome, s) ∧
    ∀ path, (s.canOpen path = false ↔ ∃ reason, (s.call (.openFile path)).1 = .unopened reason) ∧
      (s.canOpen path = false → (s.call (.openFile path)).2 = s) := by
  intro s
  refine ⟨after_config _ calls, fun c h more => ?_, fun moment hmem => moments_opened hmem, fun h => ?_, fun c h => ?_,
    rfl, fun path => ?_⟩
  · rw [after_append]
    exact after_config_of_some h more
  · have hinit (d : Config) : s.init d = (none, { s with config := some d }) := by rw [Session.init, h]
    refine ⟨?_, fun d => ⟨?_, ?_, fun layout => ?_⟩⟩
    · rw [Session.call, theConfig, h]
      rfl
    · rw [Session.call, Session.tryInit, h]
      rfl
    · rw [Session.call, hinit]
      rfl
    · rw [Session.call, Session.initWithLogger, hinit]
      have hnot (fault : Option LoggerFault) : Answer.ofFault fault ≠ .breached .configPresent := by
        cases fault <;> simp [Answer.ofFault]
      exact hnot _
  · have hinit (d : Config) : s.init d = (some .configPresent, s) := by rw [Session.init, h]
    refine ⟨?_, ?_, fun d => ⟨?_, ?_, fun layout => ?_⟩⟩
    · rw [Session.call, theConfig, h]
      rfl
    · rw [Session.call, Session.configOrDefault, h]
      rfl
    · rw [Session.call, Session.tryInit, h]
      rfl
    · rw [Session.call, hinit]
      rfl
    · rw [Session.call, Session.initWithLogger, hinit]
      rfl
  · rcases s.openFile_cases path with ⟨hopen, reader, hfile⟩ | ⟨hopen, reason, hfile⟩
    · have hanswer : (s.call (.openFile path)).1 = .ofSource (s.configOrDefault.1.source.openReader reader) := by
        rw [Session.call, hfile]
        rfl
      have hnot (opened : Except Breach Source) (reason : String) : Answer.ofSource opened ≠ .unopened reason := by
        cases opened <;> simp [Answer.ofSource]
      simp [hopen, hanswer, hnot]
    · have hanswer : s.call (.openFile path) = (.unopened reason, s) := by
        rw [Session.call, hfile]
        rfl
      simp [hopen, hanswer]

/-- The default configuration is fixed by the text that is opened, behind a file that is not there; another one comes
too late. -/
theorem config_fixed_once_by_text :
    let files : Files := ⟨[("in.txt", .file [0x61]), ("out.txt", .unavailable Files.notFound)]⟩
    let s := (start files "").after [.config, .openFile "out.txt", .openText ['a']]
    let c : Config := ⟨⟨"a", true, 1⟩, ⟨some 2, 16⟩, default⟩
    s.config = some default ∧ s.call (.tryInit c) = (.rejected c, s) ∧
      s.call (.init c) = (.breached .configPresent, s) ∧
      (s.after [.init c, .openFile "in.txt"]).config = some default ∧ (s.call (.openFile "out.txt")).2 = s := by
  intro files s c
  have hfixed := config_fixed_once files "" [.config, .openFile "out.txt", .openText ['a']]
  have hconfig : s.config = some default := hfixed.1.trans (by decide +kernel)
  obtain ⟨-, -, hlate⟩ := hfixed.2.2.2.2.1 default hconfig
  have hmore := hfixed.2.1 default hconfig [.init c, .openFile "in.txt"]
  rw [after_append] at hmore
  exact ⟨hconfig, (hlate c).1, (hlate c).2.1, hmore,
    (hfixed.2.2.2.2.2.2 "out.txt").2 (by decide +kernel : s.canOpen "out.txt" = false)⟩

end Backtrack.Session
