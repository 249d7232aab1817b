import Mathlib.Logic.Basic

/-! # Constants of `kernel/param.h` and `kernel/fs.h` -/

namespace Xv6

/-- `MAXOPBLOCKS`: max number of blocks any file-system operation writes. -/
def maxOpBlocks : Nat := 10

/-- `LOGSIZE`: max data blocks in the on-disk log. -/
def logSize : Nat := maxOpBlocks * 3

/-- `ROOTDEV`: device number of the file-system root disk. -/
def rootDev : Nat := 1

/-- `BSIZE`: bytes in a disk block. -/
def bsize : Nat := 1024

/-- `NPROC`: maximum number of processes. -/
def nproc : Nat := 64

/-- `NOFILE`: open files per process. -/
def nofile : Nat := 16

/-- `NFILE`: open files per system. -/
def nfile : Nat := 100

/-- `MAXARG`: max exec arguments. -/
def maxArg : Nat := 32

end Xv6
