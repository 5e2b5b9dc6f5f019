import TokenQuota.CommandLine.Launch

/-! A whole run of the program among given files, until it is told to stop. -/

namespace TokenQuota.CommandLine

structure Surroundings where
  /-- The files in the directory of the run, by their paths. -/
  files : List (String × Bytes)
  /-- The reason why no other store than the memory can be reached. -/
  network : Option Redis.Unreachable
  /-- The reading of the clock, in nanoseconds since 1970. -/
  now : Int
  /-- The reading of the wall clock, in seconds since 1970. -/
  wallClock : UInt64

namespace Surroundings

def directoryOf (files : List (String × Bytes)) : Directory :=
  .present (.ofList (files.map fun f => (f.1, .file f.2)))

/-- The path of a file from a directory on, if it is inside. -/
def inside? (directory : List Char) (path : String) : Option String :=
  if directory.isPrefixOf path.toList then
    some (String.ofList (path.toList.drop directory.length))
  else none

def directory (s : Surroundings) (path : String) : Directory :=
  let parts := Directory.pathParts path
  let path := "/".intercalate parts
  if parts.isEmpty then directoryOf s.files
  else if s.files.any fun f => f.1 == path then .blocked
  else
    let found := s.files.filterMap fun f =>
      (inside? (path ++ "/").toList f.1).map fun name => (name, f.2)
    if found.isEmpty then .absent else directoryOf found

def storage (s : Surroundings) (settings : Settings) : Storage :=
  if settings.configDir.isEmpty then .shelf .empty
  else .folder { Folder.absent with directory := s.directory settings.configDir }

def refusal (s : Surroundings) (settings : Settings) : Option String :=
  if settings.redisUrl.isEmpty then none else s.network.map Redis.Unreachable.refusal

def serve (s : Surroundings) (l : Launch) : Except Ending Ending := do
  let initial ← l.initial (directoryOf s.files).read
  let site := l.site initial (s.storage l.settings) (s.refusal l.settings) s.now s.wallClock
  let site ← Launch.start site
  let _ ← l.address
  return Launch.stop site

/-- How a run ends that is told to stop once it listens. -/
def run (s : Surroundings) (vars : String → Option String) (words : List String) : Ending :=
  match (do s.serve (← Launch.ofWords vars words)) with
  | .ok ending | .error ending => ending

end Surroundings

end TokenQuota.CommandLine
