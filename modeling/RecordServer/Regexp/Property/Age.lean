import RecordServer.Text.Table

/-!
# Ages

The version of the Unicode character database in which every code point has been assigned, up to version 16.0.
-/

namespace RecordServer.Regexp.Property

/-- The versions with the names of each, the oldest first. Behind the last one come the code points which have not been
assigned. -/
def ages : Text.Partition where
  names :=
    [["1.1", "V1_1"], ["2.0", "V2_0"], ["2.1", "V2_1"], ["3.0", "V3_0"], ["3.1", "V3_1"], ["3.2", "V3_2"],
     ["4.0", "V4_0"], ["4.1", "V4_1"], ["5.0", "V5_0"], ["5.1", "V5_1"], ["5.2", "V5_2"], ["6.0", "V6_0"],
     ["6.1", "V6_1"], ["6.2", "V6_2"], ["6.3", "V6_3"], ["7.0", "V7_0"], ["8.0", "V8_0"], ["9.0", "V9_0"],
     ["10.0", "V10_0"], ["11.0", "V11_0"], ["12.0", "V12_0"], ["12.1", "V12_1"], ["13.0", "V13_0"],
     ["14.0", "V14_0"], ["15.0", "V15_0"], ["15.1", "V15_1"], ["16.0", "V16_0"]]
  source :=
    ["0L5330t3750603h627a8d0xq34610wf3009346g0x7385067746201305c930191r1008200f0r306r000r00jr00wc90063051003000300",
     "03000300h41506473300b300x3300b300w9903151330wl5101510151800r31077101855f839fa1b1f7r00w6r106j00w7j00030r1f1c0",
     "r01g701c0980081072r70qr3j004ra63c0f0947000689400e0n07000b00p940i326275b00d510x93104300e300t610934603dr03t623",
     "qr1627t9h3wh50rd8wrr1j2awer1aer0brr1b0r0iar4nur0n1r4q0n7c0f0caf5g1n0h7m9naj0heg0cqf0a002600wlb10ha0b004a0b10",
     "o91b4f0a1817081f002r007r101r10lr006r000r203r1006006r101r10270r700r301r004r10ka0i1j0r1600060r005r301r10lr006r",
     "001r001r001r100r004r301r102r290r603r000r60e90j0r902r0066000r002r00lr006r001r004r109r002r002r100re0062r109c06",
     "0r6g0i5r002r007r101r10lr006r001r06003r10790r101r102r6m001r301r00291r10a60b5r901r005r202r003r201r000r001r201r",
     "202r2077002r304r202r003r190r500rd700b67r4f002j007r002r00mr009f004r1n09006r002r003r601r091g0r1n0r10191r109r6k",
     "097h0f001j007r002r00mr009r004r16106r002r003r601r5n000r00181r109r081o0rbi0f001m007r002r00mb00fb0i1900590r002r",
     "003b0h0r3h200h6g00191r10995h296r0m031r03hr23nr038r030r136r230r335r030r037r5f9r132rb0wqr30srw501r000r0k001k00",
     "0r0k000k503k006k002r000r000k101k00ck002r104r000r005o0r009r101c1rw01x9r01w13091r31qb3153010r01k3216301032r03e",
     "r090307192a3b1rw53w29034903190369233953p9x1a3910w6r0c0r4c0r10w751710070c20xra40x5a40xja536703x07030r033r136r",
     "030r033r13w77030r033r13u7030r033r136r030r033r1367036r03m703u7030r033r136703w7703ir1b1713rr27pr53xmg0r1g5r1a0",
     "3P9a83sr23xif7r65cn056n0r8n05mr85jrb5cr052r051rb3xu60r139r569r53en039r53xpj0r63wa90r4ax7r96sf1r06br36br360r2",
     "6war164ra7waa1r37pr579a0r2716w07rr171ax0r0asr1aar5a9r5adr1fem1ndrwh8xdn0r0q18wdn1q09wbc29bc5bwkr7b39wor29er2",
     "9wjh8q1r4jwbr1j2c7r7aw3c3i0f1k0r46ye7xp869rfei3n0h0b0a0810zu10930xr950lr105r10w6r105r107r000r000r000r00ur10w",
     "lr00er00dr105r00ir102r008r00wf300m503554617150765490r0e30650r10qr074b7r20a1020325173a2b0d0f2g0i0n0re0h315670",
     "8390re0wp3160705e708190a20wg308093a0g1r30xs385b0Co5d00300yr30503t5wk617a8ba0baf6h3i00w531q2rl0ark0ze5j600zp5",
     "90xh37570j615170300xn315b7159677a90a1617f8099a293a9b0aib0a0b3anf003b003b10rb00w3b000b003b200a006b1065d0ub20n",
     "b00db07683c090c0b15r935f3D75Lf6d758694839w9f294a4fpr1fw0r0m0fw2j2fbk0f7i0jog3jek07wfn07wfn08c92a0928395a17yd",
     "a6c1r47wdr0c0r4c0r17wmc1r670b0rdb07mr876r076r076r076r076r076r076r076r09w07n93719ia0c9f6h1i4j4k0m2narw23pr03x",
     "qrb3Brrp3bp30wo32523000r00xl51r105510y050r40w890i0j0r00y0r00f3nb2m47f9jq1r8p05f0s61r00w4ab605e0r61700wi5e0b6",
     "30wfl00yp630y5610u603BV9m96x10QS77l97a7c0g8ikj4mcn23wBhr23h513f503b50325030r8awg9Ekrj9w0b19hc79rf5g0c0axpr77",
     "m8394819ydb1g0b1c1fbb9c0f2h0j0f1g5j1k5n1k4m3q2r1n1r0n0r0n4q2rkn2m1f0c1b0947wcm0r2a9r58wor79x6h0r79br5arg1j19",
     "xlra90asr2axfr0aar3a1fur09wnr89dr199r193arf3ax4rna4cmr9b5r1b5r1b5r8b6r0b6r0fwgg3f1k1m3r3gxhawer1a9r51GObrbam",
     "r3awhr31xz10BZ5c15wra2r17ycrw606rb04r4300or004r000r001r001r00yebfn0rf0Gnnf0x1r10wmr6n04w00b5060n15f79r50392f",
     "6g10k516109r00ir003r3025000r00zar100r00y0510y0r205r105r105r102r206r006r93220026br06pr06ir061r06er16drw26ytr4",
     "62r36wdr2687xcf1h1r09bm0r2f0rwf9werz59sr29whrefrr34uf043r8i24qr4fwbr46tr0607w4r37drwa4w6614w66xhr169r5hw4r3h",
     "w4r3fw8r7fwkraf0nar0ner0n6r0n1r0nar0ner0n6r0n1r2qwkrbfF0r8flr9f7rnn5r0nwar0n8rx665r160r06wcr061r260r160alr0a",
     "8fx0r7f8rwggir0g1r4g48pa1r2809pr490rx1cwor3g1c1gfr1gwe73r071r477r072r07qj1r172r378j0r678r6aw0fw0rw0fw7r3fbr8",
     "awmr2asr1aqr4a7fhr6f3rbf6rxhaxarwngwjrcgwjr6g5jw8r7j9r5qw6r2qsr7q1rBlaur0mwar0m2r1m1rfq2rwnq0o2jw8r7jwarlnpr",
     "w6mrrjkmr8bxfr3btn5r8f0ax3n0r9j0r1cor6c9r5cwlr0cdj2m0r7fw7r8cxag3f0m1c9f0g4r0fjrafhr0fwbh0o2rwug6r0g0r0g3r0g",
     "er0gar5fwrr4f9r5g0f2r0f7r1f1r1flr0f6r0f1r0f4r0j0f8r1f1r1f2r1g0r5f0r4f6r1f6r2f4raq9r0q0r1q0r0qw6r0q9r0q0r1q0r",
     "0q3r0q9r0q1r7q1rshxrm0h0r0h0j0k0m1rtfx9r7f9rAafwmr1fhgjrw2fx6raf9r5hcricwok0n0r5c9r5qjrrgpj0r1ger3gfn6rAtjws",
     "ry6fxkrbf0m6r1m0r1m7r0m1r0mtr0m1r1mbr8m9rx7k7r1kwer1karqix9r7iwkk1imj0i4rcnffwpr6o9rAqqw2rdq9r5h8r0hwdr0hdr9",
     "hsr2hw0r1hlr0hdrxai6r0i1r0iwcr2i0r0i1r0i8r7i9r5j5r0j1r0jw5r0j1r0j5r6j9rEujor6ogr0ow9r2orq0rxmm0rekwirck08Xaf",
     "wag0ry88y5fbr083f0ragB9rxS0ny5rcawygo0k8osr9qzzqr4gNorCykqwqrwTsbNar6fur0f9r3f1nxgr0n9r5ftr1f5r9fx7r9f9r0f6r",
     "0fkr4firIsqwqrBbjxsry7cx6k5r3k0cwfk8r6cgrx1h0i0k1m0ram1rdhBGhj4k5r7hTamKhrw9q0m8rEE6n3r0n6r0n1r0b1iE5n3reo0r",
     "sk2r1o0rdk3r7iHnrxHdfydr4fcr2f8r6f9r1f7rzxpqD1r5qJ1rxdnwer1nmr8nymrws4Csr94w7r1904Aogan1rk7x7rysojrbjjrb6xor",
     "88hj6rza4xmr04x8r041r140r141r143r04br040r0436041r04x2r043r147r046r04rr043r044r040r246r04Fr71r14Ea81r14wigQ0r",
     "eg4r0gerwzinur5o5rBqh6r0hgr1h6r0h1r0h4r4owurw1o0ryikwdr2kdr1k9r3k1rF9nurgkwqr4k0rJtowarBrqwbr3q0rKen6r0n3r0n",
     "1r0ner0fBar1ffrw9hxck0r3h9r3h1rU9jx5rxdkwtrB7c3r0cqr0c1r0c0r1c0r0c9r0c3r0c0r0c0r5c0r3c0r0c0r0c0r0c2r0c1r0c0r",
     "1c0r0c0r0c0r0c0r0c0r0c1r0c0r1c3r0c6r0c3r0c3r0c0r0c9r0cgr4c2r0c4r0cgrwkc1rDl9wcr39y6rbber1bdf0r0ber0beflr9aaf",
     "1m2auj0b0a0baa0b0a0b1a0b2a0b2a4b7a0b6a0b9c1k0m2b8a0b0a1b1a0b9a3b1a0b9hhm0rwobpa0b1rcaw2b8h0r3a8r6b1rdi5rztbw",
     "1fbg2b5f0bx7f0g1bjfbbw5f0b4f3g4fbbgf6g7bx0f0b0f0bAqf0b3f1g0bwuf1c3f6g4bnfhh0fw9h0fxnb4c0bfc0b2c0b0c0b0c0b0c0",
     "b2c0b5c1b3c0b0c1b3c0bbf1g1bafwgbx7f9g0h1i1k0m1r3o0n2fcr2f3h2i1j0k0m1r2bymo2r3o4fxmj3o0r5kbr3n0refbr3fwor7f9r",
     "5fw8r7ftr1m1q9r3q1rwuibm0k2g8h5i0h7i7h0i1hbk0hbi0j2heicj4k0m0j3m1n0j0k0j3g4hci5jam1k5m2k1j9k5g0j1k7m0n0k2imj",
     "okxlrbjdr1k3m0o2k2n1r2k2m3o1q0r4q0k5min3o2m6n3o2q0o0m2n2q0r6o1m6n2o1q0r1q0n7o0q0r5n6o1r6mzmr0mwnqw5m9rwx4114",
     "wIInm6n1rw0azEpn3o0r5bC4r1gAZqrdiCT1repP1rxMg4MerwMf11mAz9r4ozG6rwWQ811rxBAu11rxBAu11rxBAu11rxBAu11rxBAu11rx",
     "BAu11rxBAu11rxBAu11rxBAu11rxBAu11r040rt4y2rz36CmrxAPu1zHH5"]

end RecordServer.Regexp.Property
