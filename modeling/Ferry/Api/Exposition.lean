import Ferry.Metrics

/-!
# Scrapes

The text form of all counters and gauges: families in the order of their names,
and in each family the samples in the order of their labels' values. A family
without samples is left out.
-/

namespace Ferry.Api

/-- One line of a family. -/
structure Sample where
  suffix : String := ""
  labels : List (String × String) := []
  value : Nat
deriving Repr

structure Family where
  name : String
  help : String
  kind : String
  samples : List Sample
deriving Repr

/-- The characters of a label's value that cannot stand for themselves. -/
def escapeLabel (value : String) : String :=
  String.ofList (value.toList.flatMap fun c =>
    if c = '\\' then ['\\', '\\']
    else if c = '"' then ['\\', '"']
    else if c = '\n' then ['\\', 'n']
    else [c])

def labelText (labels : List (String × String)) : String :=
  if labels.isEmpty then ""
  else "\x7b" ++ ",".intercalate (labels.map fun l => l.1 ++ "=\"" ++ escapeLabel l.2 ++ "\"")
    ++ "\x7d"

/-- The order of lists of texts by their first difference. -/
def notAfter : List String → List String → Bool
  | [], _ => true
  | _ :: _, [] => false
  | a :: as, b :: bs => a < b || (a == b && notAfter as bs)

/-- The lines of a family. -/
def Family.lines (f : Family) : List String :=
  if f.samples.isEmpty then []
  else
    let sorted := f.samples.mergeSort fun a b =>
      notAfter (a.labels.map (·.2)) (b.labels.map (·.2))
    ["# HELP " ++ f.name ++ " " ++ f.help, "# TYPE " ++ f.name ++ " " ++ f.kind] ++
      sorted.map fun s => f.name ++ s.suffix ++ labelText s.labels ++ " " ++ toString s.value

/-- The text of a scrape. -/
def exposition (families : List Family) : List String :=
  (families.mergeSort fun a b => a.name ≤ b.name).flatMap Family.lines

/-- Puts a counter into its family. -/
def addCounter (c : Counter) (n : Nat) : List Family → List Family
  | [] => [⟨c.family, c.help, "counter", [{ labels := [c.label], value := n }]⟩]
  | f :: rest =>
    if f.name = c.family then
      { f with samples := f.samples ++ [{ labels := [c.label], value := n }] } :: rest
    else f :: addCounter c n rest

/-- The families of the counters. -/
def counterFamilies (m : Metrics) : List Family :=
  m.entries.foldl (fun fs e => addCounter e.1 e.2 fs) []

/-- Requests served, by method, resource and status. -/
structure Traffic where
  served : List ((String × String × Nat) × Nat) := []
deriving Repr, Inhabited

namespace Traffic

def addServed (key : String × String × Nat) :
    List ((String × String × Nat) × Nat) → List ((String × String × Nat) × Nat)
  | [] => [(key, 1)]
  | (k, n) :: rest => if k = key then (k, n + 1) :: rest else (k, n) :: addServed key rest

/-- Counts a request that was served. -/
def add (t : Traffic) (method template : String) (status : Nat) : Traffic :=
  ⟨addServed (method, template, status) t.served⟩

def samples (t : Traffic) (suffix : String) : List Sample :=
  t.served.map fun ((method, template, status), n) =>
    { suffix, labels := [("method", method), ("path", template), ("status", toString status)],
      value := n }

/-- The families of the requests; `inFlight` are being served now. -/
def families (t : Traffic) (inFlight : Nat) : List Family :=
  [⟨"courier_http_request_duration_seconds", "HTTP request duration in seconds", "histogram",
      t.samples "_count"⟩,
   ⟨"courier_http_requests_total", "Total HTTP requests", "counter", t.samples ""⟩,
   ⟨"courier_http_requests_in_flight", "Number of HTTP requests currently being processed",
      "gauge", [{ value := inFlight }]⟩]

end Traffic

/-- The families that show the state of the orchestrator. -/
def statusFamilies (running : Bool) (jobs : List (String × Nat)) : List Family :=
  [⟨"courier_orchestrator_running", "Whether the orchestrator is running (1) or stopped (0)",
      "gauge", [{ value := if running then 1 else 0 }]⟩,
   ⟨"courier_jobs_by_state", "Current job count by state", "gauge",
      JobState.all.map fun st =>
        { labels := [("state", st.name)],
          value := ((jobs.find? fun e => e.1 == st.name).map (·.2)).getD 0 }⟩]

end Ferry.Api
