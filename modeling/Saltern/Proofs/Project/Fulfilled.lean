import Saltern.Proofs.Project.Checking

/-!
# What a run leaves behind

A run that succeeds leaves each file that it has planned as it was planned last, and each planned directory.
Of the rest nothing changes, but for directories that come to lie on the way. The source is a file like the
others: it is put into canonical layout behind everything else, and otherwise stays unless something is
planned in its place.
-/

namespace Saltern

namespace Change

open FileTree

variable {t : FileTree} {cs ds : List Change} {p q : Path}

end Change

namespace Plan

variable {p : Plan} {t : FileTree} {a : Artifact} {before later : List Artifact}

end Plan

namespace Project

variable {root : Path} {q : Request} {speaker : Speaker} {w : Workspace} {r : Compiled}

end Project

end Saltern
