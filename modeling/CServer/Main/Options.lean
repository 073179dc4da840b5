import CServer.Api.Handlers
import CServer.Lib.Strtol
import Mathlib.Data.List.Induction

/-!
# What `main` is told

The environment and the arguments of `main`, up to the `ServerConfig` that `server_create` gets.

* `parseBounded`       `parse_port` and `parse_positive`;
* `argsLoop`           the loop over `argv`;
* `mainConfig`         all of it, with the exit codes;
* `argsLoop_ok_iff`    the arguments are pairs of an option and a good value, and nothing else;
* `applied_spec`       of an option that is given again the last value counts;
* `mainConfig_exact`   which configurations `main` runs with, and that `server_create` takes them.
-/

namespace CServer

/-! ## numbers -/

/-- `strtol` of the whole text, between 1 and the bound -/
def parseBounded (text : CStr) (maxValue : Int) : Option Int :=
  let n := strtol text.bytes
  if n.range ∨ n.converted = false ∨ n.stop ≠ [] ∨ n.value.val ≤ 0 ∨ n.value.val > maxValue then none
  else some n.value.val

def SERVER_MAX_PORT : Int := 65535

def MAX_THREADS : Int := 64

def parsePort (text : CStr) : Option Int := parseBounded text SERVER_MAX_PORT

def parseThreads (text : CStr) : Option Int := parseBounded text MAX_THREADS

/-- white space, a sign and digits, with the value `n`, and nothing behind -/
def Denotes (text : CStr) (n : Int) : Prop :=
  ∃ ws sign ds, IsNumber text.bytes ws sign ds [] ∧ signedValue sign ds = n

/-- **The numbers that are taken are those that the whole text denotes, up to the bound.** -/
theorem parseBounded_iff (text : CStr) (maxValue n : Int) (hmax : maxValue < 2 ^ 63) :
    parseBounded text maxValue = some n ↔ Denotes text n ∧ 1 ≤ n ∧ n ≤ maxValue := by
  unfold parseBounded
  dsimp only
  constructor
  · intro h
    split_ifs at h with hbad
    push Not at hbad
    obtain ⟨hrange, hconverted, hstop, hpos, hle⟩ := hbad
    obtain ⟨ws, sign, ds, hnumber⟩ := strtol_isNumber text.bytes (eq_true_of_ne_false hconverted)
    rw [hstop] at hnumber
    have hread := hnumber.strtol
    have hinside : ¬(signedValue sign ds < -2 ^ 63 ∨ 2 ^ 63 ≤ signedValue sign ds) := by
      intro hout
      rw [hread] at hrange
      exact hrange (decide_eq_true hout)
    rw [not_or, not_lt, not_le] at hinside
    have hvalue : (strtol text.bytes).value.val = signedValue sign ds := by
      rw [hread]
      exact clamp_val _ hinside.1 hinside.2
    rw [hvalue] at h hpos hle
    cases h
    exact ⟨⟨ws, sign, ds, hnumber, rfl⟩, by omega, hle⟩
  · rintro ⟨⟨ws, sign, ds, hnumber, hn⟩, hlow, hhigh⟩
    have hclamp : (Long.clamp (signedValue sign ds)).val = n := by
      rw [hn]
      exact clamp_val n (by omega) (by omega)
    rw [hnumber.strtol, if_neg]
    · exact congrArg some hclamp
    · push Not
      refine ⟨?_, Bool.noConfusion, rfl, ?_, ?_⟩
      · intro hout
        have hout := of_decide_eq_true hout
        omega
      · rw [hclamp]
        omega
      · rw [hclamp]
        exact hhigh

/-! ## arguments -/

structure Settings where
  bindIp : CStr
  port : Int
  threads : Int
  dbPath : CStr
  apiKey : Option CStr

def isHelp (arg : CStr) : Bool := decide (arg = .lit "--help" ∨ arg = .lit "-h")

/-- what ends `main` at an argument that is no option with a value -/
def exitAt (arg : CStr) : Int := if isHelp arg then 0 else 2

/-- the loop from some argument on; an error is the exit code -/
def argsLoop : List CStr → Settings → Except Int Settings
  | [], s => .ok s
  | [arg], _ => .error (exitAt arg)
  | arg :: value :: rest, s =>
    if arg = .lit "--bind" then argsLoop rest { s with bindIp := value }
    else if arg = .lit "--port" then
      match parsePort value with
      | none => .error 2
      | some port => argsLoop rest { s with port := port }
    else if arg = .lit "--threads" then
      match parseThreads value with
      | none => .error 2
      | some threads => argsLoop rest { s with threads := threads }
    else if arg = .lit "--db" then
      if value.bytes = [] then .error 2 else argsLoop rest { s with dbPath := value }
    else if arg = .lit "--api-key" then argsLoop rest { s with apiKey := some value }
    else .error (exitAt arg)

inductive Opt where
  | bind
  | port
  | threads
  | db
  | apiKey
  deriving DecidableEq

def Opt.name : Opt → CStr
  | .bind => .lit "--bind"
  | .port => .lit "--port"
  | .threads => .lit "--threads"
  | .db => .lit "--db"
  | .apiKey => .lit "--api-key"

/-- an option with a value; `none` is a value that `main` does not take -/
def Settings.apply (s : Settings) (given : Opt × CStr) : Option Settings :=
  match given with
  | (.bind, value) => some { s with bindIp := value }
  | (.port, value) => (parsePort value).map fun port => { s with port := port }
  | (.threads, value) => (parseThreads value).map fun threads => { s with threads := threads }
  | (.db, value) => if value.bytes = [] then none else some { s with dbPath := value }
  | (.apiKey, value) => some { s with apiKey := some value }

def argsOf (given : List (Opt × CStr)) : List CStr := given.flatMap fun g => [g.1.name, g.2]

theorem argsLoop_option (o : Opt) (value : CStr) (rest : List CStr) (s : Settings) :
    argsLoop (o.name :: value :: rest) s =
      match s.apply (o, value) with
      | none => .error 2
      | some s' => argsLoop rest s' := by
  cases o with
  | bind => rfl
  | port =>
    have hloop : argsLoop (Opt.port.name :: value :: rest) s =
        match parsePort value with
        | none => .error 2
        | some port => argsLoop rest { s with port := port } := rfl
    have happly : s.apply (.port, value) =
        (parsePort value).map fun port => { s with port := port } := rfl
    rw [hloop, happly]
    cases parsePort value <;> rfl
  | threads =>
    have hloop : argsLoop (Opt.threads.name :: value :: rest) s =
        match parseThreads value with
        | none => .error 2
        | some threads => argsLoop rest { s with threads := threads } := rfl
    have happly : s.apply (.threads, value) =
        (parseThreads value).map fun threads => { s with threads := threads } := rfl
    rw [hloop, happly]
    cases parseThreads value <;> rfl
  | db =>
    have hloop : argsLoop (Opt.db.name :: value :: rest) s =
        if value.bytes = [] then .error 2 else argsLoop rest { s with dbPath := value } := rfl
    have happly : s.apply (.db, value) =
        if value.bytes = [] then none else some { s with dbPath := value } := rfl
    rw [hloop, happly]
    by_cases hvalue : value.bytes = []
    · rw [if_pos hvalue, if_pos hvalue]
    · rw [if_neg hvalue, if_neg hvalue]
  | apiKey => rfl

theorem argsLoop_other (arg : CStr) (rest : List CStr) (s : Settings)
    (h : ∀ o : Opt, arg ≠ o.name) : argsLoop (arg :: rest) s = .error (exitAt arg) := by
  cases rest with
  | nil => rfl
  | cons value rest =>
    unfold argsLoop
    rw [if_neg (show arg ≠ .lit "--bind" from h .bind),
      if_neg (show arg ≠ .lit "--port" from h .port),
      if_neg (show arg ≠ .lit "--threads" from h .threads),
      if_neg (show arg ≠ .lit "--db" from h .db),
      if_neg (show arg ≠ .lit "--api-key" from h .apiKey)]

/-- an option without a value -/
theorem argsLoop_last (arg : CStr) (s : Settings) : argsLoop [arg] s = .error (exitAt arg) := rfl

/-- **`main` goes on when the arguments are pairs of an option and a value that it takes, and it has
then taken each of them.** -/
theorem argsLoop_ok_iff (args : List CStr) (s s' : Settings) :
    argsLoop args s = .ok s' ↔ ∃ given, args = argsOf given ∧ given.foldlM Settings.apply s = some s' := by
  constructor
  · intro h
    induction hn : args.length using Nat.strong_induction_on generalizing args s with
    | _ n ih =>
      match args, h with
      | [], h =>
        cases h
        exact ⟨[], rfl, rfl⟩
      | [arg], h => cases h
      | arg :: value :: rest, h =>
        by_cases ho : ∃ o : Opt, arg = o.name
        · obtain ⟨o, rfl⟩ := ho
          rw [argsLoop_option] at h
          cases happly : s.apply (o, value) with
          | none =>
            rw [happly] at h
            cases h
          | some next =>
            rw [happly] at h
            have hshorter : rest.length < n := by
              rw [← hn, List.length_cons, List.length_cons]
              omega
            obtain ⟨given, hargs, hgiven⟩ := ih rest.length hshorter rest next h rfl
            refine ⟨(o, value) :: given, ?_, ?_⟩
            · rw [hargs]
              rfl
            · rw [List.foldlM_cons, happly]
              exact hgiven
        · rw [argsLoop_other arg _ s fun o heq => ho ⟨o, heq⟩] at h
          cases h
  · rintro ⟨given, rfl, hgiven⟩
    induction given generalizing s with
    | nil =>
      cases hgiven
      rfl
    | cons g given ih =>
      obtain ⟨o, value⟩ := g
      rw [List.foldlM_cons] at hgiven
      obtain ⟨next, happly, hrest⟩ := Option.bind_eq_some_iff.mp hgiven
      show argsLoop (o.name :: value :: argsOf given) s = _
      rw [argsLoop_option, happly]
      exact ih next hrest

/-! ## the last value counts -/

/-- the value that an option is given last -/
def lastOf (o : Opt) (given : List (Opt × CStr)) : Option CStr :=
  ((given.filter fun g => g.1 = o).getLast?).map Prod.snd

/-- a value that `main` takes for the option -/
def Opt.Takes : Opt → CStr → Prop
  | .port, value => ∃ n, parsePort value = some n
  | .threads, value => ∃ n, parseThreads value = some n
  | .db, value => value.bytes ≠ []
  | _, _ => True

theorem lastOf_snoc (o : Opt) (given : List (Opt × CStr)) (g : Opt × CStr) :
    lastOf o (given ++ [g]) = if g.1 = o then some g.2 else lastOf o given := by
  unfold lastOf
  rw [List.filter_append]
  by_cases ho : g.1 = o
  · rw [if_pos ho, List.filter_cons_of_pos (by simpa using ho), List.filter_nil]
    simp
  · rw [if_neg ho, List.filter_cons_of_neg (by simpa using ho), List.filter_nil, List.append_nil]

/-- the settings behind the options `given`, in terms of those before -/
structure Applied (given : List (Opt × CStr)) (s s' : Settings) : Prop where
  bindIp : s'.bindIp = (lastOf .bind given).getD s.bindIp
  dbPath : s'.dbPath = (lastOf .db given).getD s.dbPath
  apiKey : s'.apiKey = (lastOf .apiKey given).or s.apiKey
  port : some s'.port = (lastOf .port given).elim (some s.port) parsePort
  threads : some s'.threads = (lastOf .threads given).elim (some s.threads) parseThreads

theorem Settings.apply_some (s s' : Settings) (g : Opt × CStr) (h : s.apply g = some s') :
    g.1.Takes g.2 ∧ Applied [g] s s' := by
  obtain ⟨o, value⟩ := g
  cases o with
  | bind =>
    cases h
    exact ⟨True.intro, rfl, rfl, rfl, rfl, rfl⟩
  | port =>
    obtain ⟨port, hport, rfl⟩ := Option.map_eq_some_iff.mp h
    exact ⟨⟨port, hport⟩, rfl, rfl, rfl, hport.symm, rfl⟩
  | threads =>
    obtain ⟨threads, hthreads, rfl⟩ := Option.map_eq_some_iff.mp h
    exact ⟨⟨threads, hthreads⟩, rfl, rfl, rfl, rfl, hthreads.symm⟩
  | db =>
    have happly : s.apply (.db, value) =
        if value.bytes = [] then none else some { s with dbPath := value } := rfl
    rw [happly] at h
    by_cases hvalue : value.bytes = []
    · rw [if_pos hvalue] at h
      cases h
    · rw [if_neg hvalue] at h
      cases h
      exact ⟨hvalue, rfl, rfl, rfl, rfl, rfl⟩
  | apiKey =>
    cases h
    exact ⟨True.intro, rfl, rfl, rfl, rfl, rfl⟩

theorem Settings.apply_takes (s : Settings) (g : Opt × CStr) (h : g.1.Takes g.2) :
    ∃ s', s.apply g = some s' := by
  obtain ⟨o, value⟩ := g
  cases o with
  | bind => exact ⟨_, rfl⟩
  | port =>
    obtain ⟨port, hport⟩ := h
    exact ⟨_, Option.map_eq_some_iff.mpr ⟨port, hport, rfl⟩⟩
  | threads =>
    obtain ⟨threads, hthreads⟩ := h
    exact ⟨_, Option.map_eq_some_iff.mpr ⟨threads, hthreads, rfl⟩⟩
  | db => exact ⟨_, if_neg h⟩
  | apiKey => exact ⟨_, rfl⟩

/-- one more option behind the others -/
theorem Applied.snoc {given : List (Opt × CStr)} {s t u : Settings} {g : Opt × CStr}
    (h : Applied given s t) (hg : Applied [g] t u) : Applied (given ++ [g]) s u := by
  have hone : ∀ o, lastOf o [g] = if g.1 = o then some g.2 else none := fun o => lastOf_snoc o [] g
  obtain ⟨hbind, hdb, hkey, hport, hthreads⟩ := hg
  rw [hone] at hbind hdb hkey hport hthreads
  constructor
  · rw [lastOf_snoc, hbind]
    split
    · rfl
    · exact h.bindIp
  · rw [lastOf_snoc, hdb]
    split
    · rfl
    · exact h.dbPath
  · rw [lastOf_snoc, hkey]
    split
    · rfl
    · exact h.apiKey
  · rw [lastOf_snoc, hport]
    split
    · rfl
    · exact h.port
  · rw [lastOf_snoc, hthreads]
    split
    · rfl
    · exact h.threads

/-- **Every value is one that `main` takes, and the last one of each option counts.** -/
theorem applied_spec (given : List (Opt × CStr)) (s : Settings) :
    (∀ s', given.foldlM Settings.apply s = some s' →
      (∀ g ∈ given, g.1.Takes g.2) ∧ Applied given s s') ∧
    ((∀ g ∈ given, g.1.Takes g.2) → ∃ s', given.foldlM Settings.apply s = some s') := by
  induction given using List.reverseRecOn with
  | nil =>
    refine ⟨fun s' h => ?_, fun _ => ⟨s, rfl⟩⟩
    cases h
    exact ⟨fun g hg => absurd hg List.not_mem_nil, rfl, rfl, rfl, rfl, rfl⟩
  | append_singleton given g ih =>
    rw [List.foldlM_append]
    refine ⟨fun s' h => ?_, fun htakes => ?_⟩
    · obtain ⟨t, ht, hlast⟩ := Option.bind_eq_some_iff.mp h
      rw [List.foldlM_cons] at hlast
      obtain ⟨u, hu, hend⟩ := Option.bind_eq_some_iff.mp hlast
      cases hend
      obtain ⟨hall, happlied⟩ := ih.1 t ht
      obtain ⟨htake, hone⟩ := t.apply_some _ g hu
      refine ⟨fun x hx => ?_, happlied.snoc hone⟩
      rcases List.mem_append.mp hx with hx | hx
      · exact hall x hx
      · rw [List.mem_singleton.mp hx]
        exact htake
    · obtain ⟨t, ht⟩ := ih.2 fun x hx => htakes x (List.mem_append_left _ hx)
      obtain ⟨u, hu⟩ := t.apply_takes g (htakes g (List.mem_append_right _ List.mem_cons_self))
      refine ⟨u, ?_⟩
      rw [ht]
      show (List.foldlM Settings.apply t [g]) = some u
      rw [List.foldlM_cons, hu]
      rfl

/-! ## the configuration -/

/-- what `getenv` gives -/
structure Environ where
  bindIp : Option CStr
  port : Option CStr
  threads : Option CStr
  dbPath : Option CStr
  apiKey : Option CStr

structure ServerConfig where
  bindIp : Option CStr
  port : Int
  threadCount : Int
  backlog : Int
  queueSize : Int
  dbPath : Option CStr
  apiKey : Option CStr

/-- `server_config_validate` of a pointer that is not `NULL` -/
def serverConfigValidate (config : ServerConfig) : Bool :=
  if config.port = 0 then false
  else if config.threadCount ≤ 0 ∨ config.threadCount > MAX_THREADS then false
  else if config.backlog ≤ 0 ∨ config.backlog > 1024 then false
  else if config.queueSize ≤ 0 ∨ config.queueSize > 4096 then false
  else if config.dbPath.elim true fun path => decide (path.bytes = []) then false
  else configKeyValid config.apiKey

/-- a variable that is set to the empty text counts as one that is not set -/
def nonEmpty (text : Option CStr) : Option CStr := text.filter fun t => t.bytes ≠ []

def SERVER_DEFAULT_PORT : Int := 8080

def SERVER_DEFAULT_THREADS : Int := 8

/-- the settings before the loop over `argv` -/
def envSettings (env : Environ) : Except Int Settings :=
  match (nonEmpty env.port).elim (some SERVER_DEFAULT_PORT) parsePort with
  | none => .error 2
  | some port =>
    match (nonEmpty env.threads).elim (some SERVER_DEFAULT_THREADS) parseThreads with
    | none => .error 2
    | some threads => .ok {
        bindIp := (nonEmpty env.bindIp).getD (.lit "0.0.0.0")
        port := port
        threads := threads
        dbPath := (nonEmpty env.dbPath).getD (.lit "./data/app.db")
        apiKey := env.apiKey }

/-- the checks behind the loop; `inetPton` tells whether the text is an IPv4 address -/
def checkedConfig (inetPton : CStr → Bool) (s : Settings) : Except Int ServerConfig :=
  if s.bindIp ≠ .lit "0.0.0.0" ∧ inetPton s.bindIp = false then .error 2
  else if configKeyValid s.apiKey = false then .error 2
  else .ok {
    bindIp := some s.bindIp
    port := s.port
    threadCount := s.threads
    backlog := 64
    queueSize := 128
    dbPath := some s.dbPath
    apiKey := s.apiKey }

/-- `main` up to its `ServerConfig`; an error is the exit code -/
def mainConfig (inetPton : CStr → Bool) (env : Environ) (args : List CStr) :
    Except Int ServerConfig :=
  match envSettings env with
  | .error code => .error code
  | .ok s =>
    match argsLoop args s with
    | .error code => .error code
    | .ok s' => checkedConfig inetPton s'

/-- the text that the number of an option is read from: the last argument, or else the variable -/
def chosen (o : Opt) (given : List (Opt × CStr)) (envText : Option CStr) : Option CStr :=
  (lastOf o given).or (nonEmpty envText)

/-- what `main` runs with when it is given these options -/
structure Configured (inetPton : CStr → Bool) (env : Environ) (given : List (Opt × CStr))
    (config : ServerConfig) : Prop where
  takes : ∀ g ∈ given, g.1.Takes g.2
  envPort : ∀ t, nonEmpty env.port = some t → ∃ n, parsePort t = some n
  envThreads : ∀ t, nonEmpty env.threads = some t → ∃ n, parseThreads t = some n
  bindIp : config.bindIp = some ((chosen .bind given env.bindIp).getD (.lit "0.0.0.0"))
  address : config.bindIp = some (.lit "0.0.0.0") ∨ ∃ ip, config.bindIp = some ip ∧ inetPton ip = true
  port : some config.port = (chosen .port given env.port).elim (some SERVER_DEFAULT_PORT) parsePort
  threads : some config.threadCount =
    (chosen .threads given env.threads).elim (some SERVER_DEFAULT_THREADS) parseThreads
  dbPath : config.dbPath = some ((chosen .db given env.dbPath).getD (.lit "./data/app.db"))
  apiKey : config.apiKey = (lastOf .apiKey given).or env.apiKey
  apiKeyFits : configKeyValid config.apiKey = true
  sizes : config.backlog = 64 ∧ config.queueSize = 128

/-! ## what `main` runs with -/

theorem elim_or {α β : Type} (a b : Option α) (d : β) (f : α → β) :
    (a.or b).elim d f = a.elim (b.elim d f) f := by
  cases a <;> rfl

theorem getD_or {α : Type} (a b : Option α) (d : α) : (a.or b).getD d = a.getD (b.getD d) := by
  cases a <;> rfl

/-- the settings that the variables give -/
theorem envSettings_ok (env : Environ) (s : Settings) :
    envSettings env = .ok s ↔
      some s.port = (nonEmpty env.port).elim (some SERVER_DEFAULT_PORT) parsePort ∧
      some s.threads = (nonEmpty env.threads).elim (some SERVER_DEFAULT_THREADS) parseThreads ∧
      s.bindIp = (nonEmpty env.bindIp).getD (.lit "0.0.0.0") ∧
      s.dbPath = (nonEmpty env.dbPath).getD (.lit "./data/app.db") ∧ s.apiKey = env.apiKey := by
  unfold envSettings
  constructor
  · intro h
    split at h
    · cases h
    · next port hport =>
      split at h
      · cases h
      · next threads hthreads =>
        cases h
        exact ⟨hport.symm, hthreads.symm, rfl, rfl, rfl⟩
  · rintro ⟨hport, hthreads, hbind, hdb, hkey⟩
    rw [← hport]
    dsimp only
    rw [← hthreads]
    dsimp only
    rw [← hbind, ← hdb, ← hkey]

theorem checkedConfig_ok (inetPton : CStr → Bool) (s : Settings) (config : ServerConfig) :
    checkedConfig inetPton s = .ok config ↔
      (s.bindIp = .lit "0.0.0.0" ∨ inetPton s.bindIp = true) ∧ configKeyValid s.apiKey = true ∧
      config = ⟨some s.bindIp, s.port, s.threads, 64, 128, some s.dbPath, s.apiKey⟩ := by
  unfold checkedConfig
  by_cases hip : s.bindIp ≠ .lit "0.0.0.0" ∧ inetPton s.bindIp = false
  · rw [if_pos hip]
    refine ⟨fun h => (by cases h), fun h => ?_⟩
    rcases h.1 with hany | hvalid
    · exact absurd hany hip.1
    · rw [hip.2] at hvalid
      cases hvalid
  · rw [if_neg hip]
    rw [not_and_or, not_not, Bool.not_eq_false] at hip
    by_cases hkey : configKeyValid s.apiKey = false
    · rw [if_pos hkey]
      refine ⟨fun h => (by cases h), fun h => ?_⟩
      rw [hkey] at h
      cases h.2.1
    · rw [if_neg hkey]
      refine ⟨fun h => ?_, fun h => ?_⟩
      · cases h
        exact ⟨hip, eq_true_of_ne_false hkey, rfl⟩
      · rw [h.2.2]

/-- **`main` runs exactly with the configurations that its variables and arguments choose.** -/
theorem mainConfig_ok_iff (inetPton : CStr → Bool) (env : Environ) (args : List CStr)
    (config : ServerConfig) :
    mainConfig inetPton env args = .ok config ↔
      ∃ given, args = argsOf given ∧ Configured inetPton env given config := by
  unfold mainConfig
  constructor
  · intro h
    split at h
    · cases h
    · next s hs =>
      split at h
      · cases h
      · next s' hs' =>
        obtain ⟨given, hargs, hgiven⟩ := (argsLoop_ok_iff args s s').mp hs'
        obtain ⟨hport, hthreads, hbind, hdb, hkey⟩ := (envSettings_ok env s).mp hs
        obtain ⟨htakes, happlied⟩ := (applied_spec given s).1 s' hgiven
        obtain ⟨haddress, hfits, rfl⟩ := (checkedConfig_ok inetPton s' config).mp h
        refine ⟨given, hargs, htakes, fun t ht => ?_, fun t ht => ?_, ?_, ?_, ?_, ?_, ?_, ?_, hfits,
          rfl, rfl⟩
        · rw [ht] at hport
          exact ⟨s.port, hport.symm⟩
        · rw [ht] at hthreads
          exact ⟨s.threads, hthreads.symm⟩
        · unfold chosen
          rw [getD_or, ← hbind, ← happlied.bindIp]
        · exact haddress.imp (congrArg some) fun hvalid => ⟨_, rfl, hvalid⟩
        · unfold chosen
          rw [elim_or, ← hport, ← happlied.port]
        · unfold chosen
          rw [elim_or, ← hthreads, ← happlied.threads]
        · unfold chosen
          rw [getD_or, ← hdb, ← happlied.dbPath]
        · rw [← hkey]
          exact happlied.apiKey
  · rintro ⟨given, hargs, h⟩
    obtain ⟨port, hport⟩ : ∃ port, some port =
        (nonEmpty env.port).elim (some SERVER_DEFAULT_PORT) parsePort := by
      cases ht : nonEmpty env.port with
      | none => exact ⟨_, rfl⟩
      | some t =>
        obtain ⟨n, hn⟩ := h.envPort t ht
        exact ⟨n, hn.symm⟩
    obtain ⟨threads, hthreads⟩ : ∃ threads, some threads =
        (nonEmpty env.threads).elim (some SERVER_DEFAULT_THREADS) parseThreads := by
      cases ht : nonEmpty env.threads with
      | none => exact ⟨_, rfl⟩
      | some t =>
        obtain ⟨n, hn⟩ := h.envThreads t ht
        exact ⟨n, hn.symm⟩
    have hs := (envSettings_ok env ⟨_, port, threads, _, _⟩).mpr ⟨hport, hthreads, rfl, rfl, rfl⟩
    obtain ⟨s', hgiven⟩ := (applied_spec given _).2 h.takes
    have happlied := ((applied_spec given _).1 s' hgiven).2
    rw [hs]
    dsimp only
    rw [(argsLoop_ok_iff args _ s').mpr ⟨given, hargs, hgiven⟩]
    dsimp only
    have hbind : config.bindIp = some s'.bindIp := by
      rw [h.bindIp, happlied.bindIp]
      unfold chosen
      rw [getD_or]
      rfl
    have hdb : config.dbPath = some s'.dbPath := by
      rw [h.dbPath, happlied.dbPath]
      unfold chosen
      rw [getD_or]
      rfl
    have hport' : config.port = s'.port := by
      have heq := h.port
      unfold chosen at heq
      rw [elim_or, ← hport, ← happlied.port] at heq
      exact Option.some.inj heq
    have hthreads' : config.threadCount = s'.threads := by
      have heq := h.threads
      unfold chosen at heq
      rw [elim_or, ← hthreads, ← happlied.threads] at heq
      exact Option.some.inj heq
    have hkey : config.apiKey = s'.apiKey := by
      rw [h.apiKey, happlied.apiKey]
    refine (checkedConfig_ok inetPton s' config).mpr ⟨?_, ?_, ?_⟩
    · rcases h.address with hany | ⟨ip, hip, hvalid⟩
      · rw [hbind] at hany
        exact .inl (Option.some.inj hany)
      · rw [hbind] at hip
        rw [Option.some.inj hip]
        exact .inr hvalid
    · rw [← hkey]
      exact h.apiKeyFits
    · obtain ⟨hbacklog, hqueue⟩ := h.sizes
      rw [← hbind, ← hdb, ← hport', ← hthreads', ← hkey, ← hbacklog, ← hqueue]

/-- **What `main` runs with, `server_config_validate` accepts.** -/
theorem Configured.valid {inetPton : CStr → Bool} {env : Environ} {given : List (Opt × CStr)}
    {config : ServerConfig} (h : Configured inetPton env given config) :
    serverConfigValidate config = true := by
  have hchosen : ∀ (t : Option CStr) (d maxValue n : Int), 1 ≤ d → d ≤ maxValue → maxValue < 2 ^ 63 →
      some n = t.elim (some d) (fun text => parseBounded text maxValue) → 1 ≤ n ∧ n ≤ maxValue := by
    intro t d maxValue n hd1 hd2 hmax hn
    cases t with
    | none =>
      cases hn
      exact ⟨hd1, hd2⟩
    | some text => exact ((parseBounded_iff text maxValue n hmax).mp hn.symm).2
  have hport := hchosen _ _ SERVER_MAX_PORT _ (by decide) (by decide) (by decide) h.port
  have hthreads := hchosen _ _ MAX_THREADS _ (by decide) (by decide) (by decide) h.threads
  have hlast : ∀ value, lastOf .db given = some value → value.bytes ≠ [] := by
    intro value hvalue
    obtain ⟨g, hg, rfl⟩ := Option.map_eq_some_iff.mp hvalue
    obtain ⟨hmem, ho⟩ := List.mem_filter.mp (List.mem_of_getLast? hg)
    have htakes := h.takes g hmem
    rw [of_decide_eq_true ho] at htakes
    exact htakes
  have hdb : ∃ path, config.dbPath = some path ∧ path.bytes ≠ [] := by
    refine ⟨_, h.dbPath, ?_⟩
    unfold chosen
    rw [getD_or]
    cases hl : lastOf .db given with
    | some value => exact hlast value hl
    | none =>
      cases he : nonEmpty env.dbPath with
      | none => exact fun hnil => by cases hnil
      | some path => exact of_decide_eq_true (Option.filter_eq_some_iff.mp he).2
  obtain ⟨path, hpath, hnonempty⟩ := hdb
  obtain ⟨hbacklog, hqueue⟩ := h.sizes
  have hmax : MAX_THREADS = 64 := rfl
  unfold serverConfigValidate
  rw [if_neg (by omega), if_neg (by omega), if_neg (by omega), if_neg (by omega), hpath, if_neg]
  · exact h.apiKeyFits
  · show ¬decide (path.bytes = []) = true
    rw [decide_eq_true_eq]
    exact hnonempty

/-- the arguments win over the variables, and the last of them over the others -/
example : (mainConfig (fun _ => false) ⟨none, some (.lit "9000"), none, none, none⟩
    [.lit "--port", .lit "1", .lit "--port", .lit "80"]).map ServerConfig.port = .ok 80 := rfl

end CServer
