import Octet.Cluster.Image
import Octet.Storage

/-! # Clusters in files

Storing a cluster and getting it back. A cluster that was stored is read back as
it was; a file that holds something else is refused under its name.
-/

namespace Octet

/-- Why no cluster could be read from a file. -/
inductive LoadProblem where
  /-- The file could not be read. -/
  | unreadable (cause : Cause)
  /-- The file `name` is no cluster file. -/
  | unacceptable (name : String) (problem : Image.Problem)
  deriving DecidableEq, Repr

/-- A problem as a failure. -/
def LoadProblem.failure : LoadProblem → Failure
  | unreadable cause => .context "open failed" (.cause cause)
  | unacceptable name problem => .context name problem.failure

namespace Storage

/-- Stores a cluster in a file. -/
def saveCluster (storage : Storage) (name : String) (cluster : Option Cluster) :
    Except Failure Storage :=
  match storage.write name (Cluster.encode cluster) with
  | .ok storage => .ok storage
  | .error cause => .error (.context "create failed" (.cause cause))

/-- Reads a cluster from a file. -/
def loadCluster (storage : Storage) (name : String) : Except LoadProblem Cluster :=
  match storage.read name with
  | .error cause => .error (.unreadable cause)
  | .ok content =>
    match Image.toCluster content with
    | .ok cluster => .ok cluster
    | .error problem => .error (.unacceptable name problem)

end Storage

end Octet
