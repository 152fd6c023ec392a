import UnikraftSuite.Isolation
import UnikraftSuite.Reset
import UnikraftSuite.Runtest
import UnikraftSuite.CountReport
import UnikraftSuite.Pipeline
import UnikraftSuite.ListingOrder
import UnikraftSuite.Labels
import UnikraftSuite.LogFiles
import UnikraftSuite.Lib.CStdio
import UnikraftSuite.CaseVerdict
import UnikraftSuite.Comments
import UnikraftSuite.Statements
import UnikraftSuite.SourceTree
import UnikraftSuite.Interruption
import UnikraftSuite.Overlap
import UnikraftSuite.Count
import UnikraftSuite.StackSizes
import UnikraftSuite.Sorting
import UnikraftSuite.Plot
import UnikraftSuite.Charts
import UnikraftSuite.FunctionBody
import UnikraftSuite.LinePaths
import UnikraftSuite.SafeCalls
import UnikraftSuite.PathsAgree
import UnikraftSuite.TestStatements
import UnikraftSuite.MainFunction
import UnikraftSuite.Reconversion
import UnikraftSuite.Syscalls.Access01
import UnikraftSuite.Syscalls.Brk01
import UnikraftSuite.Syscalls.Execve05
import UnikraftSuite.Syscalls.Fcntl01Posix
import UnikraftSuite.Syscalls.Fcntl07
import UnikraftSuite.Syscalls.Fcntl14
import UnikraftSuite.Syscalls.Fcntl17End
import UnikraftSuite.Syscalls.Fcntl36
import UnikraftSuite.Syscalls.Mmap10
import UnikraftSuite.Syscalls.Mprotect02
import UnikraftSuite.Syscalls.Openat01
import UnikraftSuite.Syscalls.Openat03
import UnikraftSuite.Syscalls.Prctl02
import UnikraftSuite.Syscalls.Prctl04
import UnikraftSuite.Syscalls.Prctl06
import UnikraftSuite.Syscalls.Prctl08
import UnikraftSuite.Syscalls.Prctl10
import UnikraftSuite.Syscalls.Read02
