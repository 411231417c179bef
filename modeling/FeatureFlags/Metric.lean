import FeatureFlags.SortedMap

/-!
# Metrics

What the parts of the system measure about themselves. A `Metric` names a quantity, a `Measurement`
is one thing that happened to it, and a `Metric.Record` is what a list of measurements adds up to.
Which measurements an operation gives rise to is stated beside the operation.
-/

namespace FeatureFlags

/-- How the measurements of a metric add up. -/
inductive Metric.Kind where
  /-- Occurrences are counted. -/
  | counter
  /-- The last value stands. -/
  | gauge
  /-- The distribution of the values is kept. -/
  | histogram
deriving DecidableEq, Repr

/-- A measured quantity. -/
structure Metric where
  name : String
  kind : Metric.Kind
  description : String
deriving DecidableEq, Repr

/-- Something that was measured. -/
inductive Measurement where
  /-- One more occurrence, told apart by a label. -/
  | occurred (metric : Metric) (label : Option (String × String))
  /-- A quantity has a new value. -/
  | became (metric : Metric) (value : Nat)
  /-- A value was seen; nothing is said about a time that passed. -/
  | saw (metric : Metric) (value : Option Nat)
deriving DecidableEq, Repr

namespace Metric

/-! ## The metrics of the client -/

def installs : Metric :=
  ⟨"client.snapshot.installs", .counter,
    "Number of feature maps installed with a new version"⟩

def parseErrors : Metric :=
  ⟨"client.snapshot.parse_errors", .counter,
    "Number of feature map payloads rejected because they failed to parse"⟩

def mergedFeatures : Metric :=
  ⟨"client.snapshot.merged_features", .gauge,
    "Number of features in the merged view after the last install"⟩

def deliveries : Metric :=
  ⟨"client.watcher.deliveries", .counter,
    "Number of feature file contents handed to the client"⟩

def watchErrors : Metric :=
  ⟨"client.watcher.errors", .counter,
    "Number of errors while reading or re-arming the watched feature file"⟩

def pollErrors : Metric :=
  ⟨"client.poller.errors", .counter,
    "Number of failed feature map polls"⟩

/-- What a client measures. -/
def ofClient : List Metric :=
  [installs, parseErrors, mergedFeatures, deliveries, watchErrors, pollErrors]

/-! ## The metrics of the server -/

def requests : Metric :=
  ⟨"server.http.requests", .counter,
    "Number of requests to the feature listener, tagged by status"⟩

def notModified : Metric :=
  ⟨"server.http.not_modified", .counter,
    "Number of feature requests answered with 304 Not Modified"⟩

def responseBytes : Metric :=
  ⟨"server.http.response_bytes", .histogram,
    "Size of served feature documents in bytes"⟩

/-- What a feature server measures. -/
def ofServer : List Metric :=
  [requests, notModified, responseBytes]

/-! ## The metrics of the store -/

def storeWrites : Metric :=
  ⟨"store.writes", .counter,
    "Number of feature records written or deleted, tagged by operation"⟩

def builds : Metric :=
  ⟨"store.snapshot.builds", .counter,
    "Number of feature maps rebuilt from the store"⟩

def fileWrites : Metric :=
  ⟨"store.snapshot.writes", .counter,
    "Number of feature files written with a new version"⟩

def syncErrors : Metric :=
  ⟨"store.snapshot.errors", .counter,
    "Number of failed attempts to rebuild or write the feature file"⟩

def buildDuration : Metric :=
  ⟨"store.snapshot.build.duration", .histogram,
    "Time to rebuild the feature map from the store in seconds"⟩

/-- What the store side measures. -/
def ofStore : List Metric :=
  [storeWrites, builds, fileWrites, syncErrors, buildDuration]

/-! ## Adding up -/

/-- What measurements add up to. -/
structure Record where
  counters : SortedMap Nat
  gauges : SortedMap Nat
  /-- How many values were seen, and their sum unless they are times. -/
  histograms : SortedMap (Nat × Option Nat)

namespace Record

instance : Inhabited Record := ⟨⟨.empty, .empty, .empty⟩⟩

/-- The key of a metric, with its label if it has one. -/
def key (metric : Metric) (label : Option (String × String)) : String :=
  match label with
  | none => metric.name
  | some (name, value) => metric.name ++ "\x7b" ++ name ++ "=" ++ value ++ "\x7d"

/-- Counts one more occurrence under a key. -/
def count (r : Record) (key : String) : Record :=
  { r with counters := r.counters.insert key ((r.counters.get? key).getD 0 + 1) }

/-- Adds a measurement. -/
def add (r : Record) : Measurement → Record
  | .occurred metric label => r.count (key metric label)
  | .became metric value => { r with gauges := r.gauges.insert metric.name value }
  | .saw metric value =>
    let (seen, sum) := (r.histograms.get? metric.name).getD (0, some 0)
    { r with
      histograms := r.histograms.insert metric.name
        (seen + 1, sum.bind fun total => value.map (total + ·)) }

/-- Adds measurements one after the other. -/
def addAll (r : Record) (l : List Measurement) : Record :=
  l.foldl add r

end Record

end Metric

end FeatureFlags
