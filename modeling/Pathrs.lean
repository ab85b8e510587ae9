import Pathrs.Error
import Pathrs.Path
import Pathrs.Libc
import Pathrs.Fs
import Pathrs.Walk
import Pathrs.Kernel
import Pathrs.Grow
import Pathrs.Sys
import Pathrs.Subtree
import Pathrs.Root
import Pathrs.Logic
import Pathrs.Atomic
import Pathrs.Resolver
import Pathrs.Create
import Pathrs.CreateFile
import Pathrs.Anchored
import Pathrs.MkdirAll
import Pathrs.Effects
import Pathrs.Refusals
import Pathrs.Confine
