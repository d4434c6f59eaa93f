import VectorSearch.Settings.Check
import VectorSearch.Settings.Document
/-!
Settings as text.
-/

namespace VectorSearch.Settings

def told (text : String) : (reason : Option String) → String
  | some reason => text ++ ": " ++ reason
  | none => text

section Library

variable [Toml.Library]

/-- The settings that a text stands for, whatever their values. -/
def read (text : String) : Except (Option String) Settings := do
  let document ← Toml.Library.read text
  match ofDocument? document with
  | some settings => return settings
  | none => throw (Toml.Library.mismatch text)

def parse (text : String) : Except Failure Settings :=
  match read text with
  | .error reason => .error (.configuration (told "Failed to parse config" reason))
  | .ok settings => settings.check.map fun _ => settings

def write (settings : Settings) : Except Failure String :=
  (Toml.Library.write settings.groups).mapError fun reason =>
    .configuration (told "Failed to serialize config" reason)

end Library

def defaultText : String :=
  String.join ([
    "# stratavec configuration",
    "",
    "[optimizer]",
    "# Collections at or below this many vectors are scanned exactly.",
    "exact_scan_threshold = 1000",
    "# Filters matching fewer than this fraction of vectors switch to",
    "# oversample + post-filter.",
    "selective_filter_threshold = 0.01",
    "# Weight of the newest latency/recall sample in the running averages.",
    "ema_alpha = 0.1",
    "ef_search_cap = 500",
    "nprobe_cap = 128",
    "",
    "[migration]",
    "# Vectors inserted between progress updates.",
    "batch_size = 100",
    "",
    "[index]",
    "# \"cosine\", \"euclidean\" or \"dot_product\"",
    "metric = \"cosine\"",
    "",
    "[index.hnsw]",
    "m = 16",
    "ef_construction = 200",
    "ef_search = 50",
    "",
    "[index.ivf]",
    "# 0 = sqrt(number of vectors)",
    "nlist = 0",
    "nprobe = 8",
    "kmeans_iterations = 25",
    "seed = 42",
    "",
    "[index.binary]",
    "rerank_factor = 4"].map fun line => line ++ "\n")

end VectorSearch.Settings
